/-! # Entries in insertion order

A list of entries is read by key. Writing an existing key keeps its position; a new key
goes to the end.
-/
namespace Wiring.Entries
set_option autoImplicit false

variable {α : Type}

def keys (entries : List (String × α)) : List String :=
  entries.map (·.1)

def get? (key : String) : List (String × α) → Option α
  | [] => none
  | (k, value) :: rest => if k = key then some value else get? key rest

def set (key : String) (value : α) : List (String × α) → List (String × α)
  | [] => [(key, value)]
  | (k, old) :: rest => if k = key then (k, value) :: rest else (k, old) :: set key value rest

def erase (key : String) : List (String × α) → List (String × α)
  | [] => []
  | (k, value) :: rest => if k = key then rest else (k, value) :: erase key rest

/-- A key written twice keeps its first position and its last value. -/
def ofList (pairs : List (String × α)) : List (String × α) :=
  pairs.foldl (fun entries pair => set pair.1 pair.2 entries) []

def sorted (entries : List (String × α)) : List (String × α) :=
  entries.mergeSort fun first second => decide (first.1 ≤ second.1)

theorem get?_eq_none_iff (key : String) (entries : List (String × α)) :
    get? key entries = none ↔ key ∉ keys entries := by
  fun_induction get? key entries with
  | case1 => simp [keys]
  | case2 _ _ => simp [keys]
  | case3 k value rest hne ih =>
    rw [ih]
    simp only [keys, List.map_cons, List.mem_cons, not_or]
    exact ⟨fun h => ⟨fun e => hne e.symm, h⟩, fun h => h.2⟩

theorem get?_append (key : String) (first second : List (String × α)) :
    get? key (first ++ second) = (get? key first).or (get? key second) := by
  fun_induction get? key first with
  | case1 => rfl
  | case2 value rest => simp [get?]
  | case3 k value rest hne ih => simp only [List.cons_append, get?, hne, if_false, ih]

theorem get?_reverse_of_not_mem {key : String} {entries : List (String × α)}
    (h : key ∉ keys entries) : get? key entries.reverse = none := by
  rw [get?_eq_none_iff, keys, List.map_reverse, List.mem_reverse]
  exact h

theorem get?_reverse_of_last {key : String} {earlier later : List (String × α)} {value : α}
    (h : key ∉ keys later) : get? key (earlier ++ (key, value) :: later).reverse = some value := by
  rw [List.reverse_append, List.reverse_cons, get?_append, get?_append, get?_reverse_of_not_mem h,
    get?, if_pos rfl]
  rfl

theorem get?_set (key other : String) (value : α) (entries : List (String × α)) :
    get? other (set key value entries) =
      if key = other then some value else get? other entries := by
  fun_induction set key value entries with
  | case1 => rfl
  | case2 old rest =>
    by_cases h : key = other <;> simp [get?, h]
  | case3 k old rest hne ih =>
    by_cases h : k = other
    · subst h
      simp [get?, Ne.symm hne]
    · simp only [get?, h, if_false, ih]

theorem set_set (key : String) (first second : α) (entries : List (String × α)) :
    set key second (set key first entries) = set key second entries := by
  fun_induction set key first entries with
  | case1 => simp [set]
  | case2 old rest => simp [set]
  | case3 k old rest hne ih => simp only [set, hne, if_false, ih]

theorem set_of_get? {key : String} {value : α} {entries : List (String × α)}
    (h : get? key entries = some value) : set key value entries = entries := by
  fun_induction get? key entries with
  | case1 => cases h
  | case2 found rest =>
    cases h
    simp [set]
  | case3 k found rest hne ih => simp only [set, hne, if_false, ih h]

theorem mem_of_get? {key : String} {value : α} {entries : List (String × α)}
    (h : get? key entries = some value) : (key, value) ∈ entries := by
  fun_induction get? key entries with
  | case1 => cases h
  | case2 found rest =>
    cases h
    exact List.mem_cons_self
  | case3 k found rest hne ih => exact List.mem_cons_of_mem _ (ih h)

theorem mem_keys_of_mem {key : String} {value : α} {entries : List (String × α)}
    (h : (key, value) ∈ entries) : key ∈ keys entries :=
  List.mem_map.mpr ⟨(key, value), h, rfl⟩

theorem get?_of_mem {key : String} {value : α} {entries : List (String × α)}
    (hKeys : (keys entries).Nodup) (h : (key, value) ∈ entries) :
    get? key entries = some value := by
  fun_induction get? key entries with
  | case1 => cases h
  | case2 found rest =>
    rcases List.mem_cons.mp h with h | h
    · cases h
      rfl
    · exact absurd (mem_keys_of_mem h) (List.nodup_cons.mp hKeys).1
  | case3 k found rest hne ih =>
    rcases List.mem_cons.mp h with h | h
    · cases h
      exact absurd rfl hne
    · exact ih (List.nodup_cons.mp hKeys).2 h

theorem keys_set (key : String) (value : α) (entries : List (String × α)) :
    keys (set key value entries) =
      if key ∈ keys entries then keys entries else keys entries ++ [key] := by
  fun_induction set key value entries with
  | case1 => simp [keys]
  | case2 old rest => simp [keys]
  | case3 k old rest hne ih =>
    simp only [keys, List.map_cons, List.mem_cons, Ne.symm hne, false_or] at ih ⊢
    rw [ih]
    split <;> simp_all

theorem nodup_keys_set {key : String} {value : α} {entries : List (String × α)}
    (h : (keys entries).Nodup) : (keys (set key value entries)).Nodup := by
  rw [keys_set]
  split
  · exact h
  · rename_i hn
    rw [List.nodup_append]
    simp only [h, List.nodup_cons, List.not_mem_nil, not_false_eq_true, List.nodup_nil, and_self,
      List.mem_singleton, ne_eq, forall_eq, true_and]
    intro a ha e
    exact hn (e ▸ ha)

theorem keys_erase_sublist (key : String) (entries : List (String × α)) :
    (keys (erase key entries)).Sublist (keys entries) := by
  fun_induction erase key entries with
  | case1 => exact .slnil
  | case2 value rest => exact List.sublist_cons_self _ _
  | case3 k value rest _ ih => exact ih.cons_cons _

theorem nodup_keys_erase {key : String} {entries : List (String × α)}
    (h : (keys entries).Nodup) : (keys (erase key entries)).Nodup :=
  (keys_erase_sublist key entries).nodup h

theorem nodup_keys_ofList (pairs : List (String × α)) : (keys (ofList pairs)).Nodup := by
  suffices ∀ start : List (String × α), (keys start).Nodup →
      (keys (pairs.foldl (fun entries pair => set pair.1 pair.2 entries) start)).Nodup from
    this [] .nil
  induction pairs with
  | nil => exact fun _ h => h
  | cons pair rest ih => exact fun _ h => ih _ (nodup_keys_set h)

theorem set_of_not_mem {key : String} {value : α} {entries : List (String × α)}
    (h : key ∉ keys entries) : set key value entries = entries ++ [(key, value)] := by
  fun_induction set key value entries with
  | case1 => rfl
  | case2 old rest => exact absurd List.mem_cons_self h
  | case3 k old rest hne ih => rw [ih fun hRest => h (List.mem_cons_of_mem _ hRest), List.cons_append]

theorem ofList_of_nodup {pairs : List (String × α)} (h : (keys pairs).Nodup) :
    ofList pairs = pairs := by
  suffices ∀ start : List (String × α), (keys (start ++ pairs)).Nodup →
      pairs.foldl (fun entries pair => set pair.1 pair.2 entries) start = start ++ pairs from
    this [] h
  clear h
  induction pairs with
  | nil => exact fun start _ => (List.append_nil start).symm
  | cons pair rest ih =>
    intro start h
    have hNew : pair.1 ∉ keys start := by
      rw [keys, List.map_append, List.nodup_append] at h
      exact fun hMem => h.2.2 _ hMem _ List.mem_cons_self rfl
    rw [List.append_cons] at h ⊢
    rw [List.foldl_cons, set_of_not_mem hNew, ih _ h]

theorem sorted_perm (entries : List (String × α)) : (sorted entries).Perm entries :=
  List.mergeSort_perm _ _

end Wiring.Entries
