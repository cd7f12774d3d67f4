-- SUMMARY: Finite maps and sets in key order: strictly sorted association lists that carry their order.
import Mathlib.Order.Basic
import Mathlib.Data.List.Sort
import Mathlib.Data.List.Pairwise

/-!
# Ordered maps and sets

A map is the list of its entries in strictly ascending key order, with the order
as a field. Lookup, membership and equality then have their usual laws without
side conditions.
-/

structure OrdMap (κ β : Type) [LinearOrder κ] where
  toList : List (κ × β)
  sorted : toList.Pairwise fun x y => x.1 < y.1
  deriving DecidableEq

namespace OrdMap

variable {κ β γ : Type} [LinearOrder κ]

@[ext]
theorem ext {m m' : OrdMap κ β} (h : m.toList = m'.toList) : m = m' := by
  cases m
  cases m'
  cases h
  rfl

def keys (m : OrdMap κ β) : List κ := m.toList.map Prod.fst

def values (m : OrdMap κ β) : List β := m.toList.map Prod.snd

theorem keys_sorted (m : OrdMap κ β) : m.keys.Pairwise (· < ·) := List.pairwise_map.mpr m.sorted

theorem keys_nodup (m : OrdMap κ β) : m.keys.Nodup := m.keys_sorted.imp fun h => ne_of_lt h

/-- Two strictly sorted lists with the same elements are equal. -/
theorem eq_of_mem_iff {l l' : List κ} (hl : l.Pairwise (· < ·)) (hl' : l'.Pairwise (· < ·))
    (h : ∀ k, k ∈ l ↔ k ∈ l') : l = l' := by
  have hperm : l.Perm l' := (List.perm_ext_iff_of_nodup (hl.imp fun h => ne_of_lt h)
    (hl'.imp fun h => ne_of_lt h)).mpr h
  exact hperm.eq_of_pairwise (fun a b _ _ hab hba => absurd hab (lt_asymm hba)) hl hl'

-- ---------------------------------------------------------------------------
-- Lookup
-- ---------------------------------------------------------------------------

def get? (m : OrdMap κ β) (k : κ) : Option β :=
  (m.toList.find? fun x => x.1 = k).map Prod.snd

theorem entry_unique (m : OrdMap κ β) {x y : κ × β} (hx : x ∈ m.toList) (hy : y ∈ m.toList)
    (h : x.1 = y.1) : x = y := by
  have hinj := List.inj_on_of_nodup_map m.keys_nodup
  exact hinj hx hy h

theorem get?_eq_some_iff {m : OrdMap κ β} {k : κ} {v : β} :
    m.get? k = some v ↔ (k, v) ∈ m.toList := by
  simp only [get?, Option.map_eq_some_iff]
  constructor
  · rintro ⟨⟨a, b⟩, hfind, rfl⟩
    have hmem := List.mem_of_find?_eq_some hfind
    have hkey := List.find?_some hfind
    simp only [decide_eq_true_eq] at hkey
    exact hkey ▸ hmem
  · intro hmem
    cases hfind : m.toList.find? fun x => x.1 = k with
    | none =>
      have := List.find?_eq_none.mp hfind (k, v) hmem
      simp at this
    | some x =>
      have hkey := List.find?_some hfind
      simp only [decide_eq_true_eq] at hkey
      have heq := m.entry_unique (List.mem_of_find?_eq_some hfind) hmem hkey
      exact ⟨x, rfl, by rw [heq]⟩

theorem get?_eq_none_iff {m : OrdMap κ β} {k : κ} : m.get? k = none ↔ k ∉ m.keys := by
  simp only [get?, Option.map_eq_none_iff, List.find?_eq_none, decide_eq_true_eq, keys,
    List.mem_map, not_exists, not_and]

theorem mem_keys_iff {m : OrdMap κ β} {k : κ} : k ∈ m.keys ↔ ∃ v, m.get? k = some v := by
  rw [← not_iff_not, ← get?_eq_none_iff, Option.eq_none_iff_forall_not_mem]
  simp

theorem toList_eq_filterMap (m : OrdMap κ β) :
    m.toList = m.keys.filterMap fun k => (m.get? k).map (k, ·) := by
  rw [keys, List.filterMap_map, eq_comm]
  refine (List.filterMap_congr fun x hx => ?_).trans List.filterMap_some
  simp only [Function.comp_apply, get?_eq_some_iff.mpr hx, Option.map_some]

/-- Maps with the same lookups are equal. -/
theorem ext_get? {m m' : OrdMap κ β} (h : ∀ k, m.get? k = m'.get? k) : m = m' := by
  have hkeys : m.keys = m'.keys := eq_of_mem_iff m.keys_sorted m'.keys_sorted fun k => by
    rw [mem_keys_iff, mem_keys_iff, h]
  apply ext
  rw [toList_eq_filterMap m, toList_eq_filterMap m', hkeys]
  simp only [h]

/-- A map is read off its keys and lookups. -/
theorem toList_eq_map {α : Type} {m : OrdMap κ β} {l : List α} {key : α → κ} {val : α → β}
    (hkeys : m.keys = l.map key) (hget : ∀ a ∈ l, m.get? (key a) = some (val a)) :
    m.toList = l.map fun a => (key a, val a) := by
  rw [toList_eq_filterMap, hkeys, List.filterMap_map, ← List.filterMap_eq_map]
  refine List.filterMap_congr fun a ha => ?_
  simp only [Function.comp_apply, hget a ha, Option.map_some]

-- ---------------------------------------------------------------------------
-- Insertion
-- ---------------------------------------------------------------------------

def empty : OrdMap κ β := ⟨[], List.Pairwise.nil⟩

theorem get?_getD_empty (m : Option (OrdMap κ β)) (k : κ) :
    (m.getD .empty).get? k = m.bind fun m => m.get? k := by
  cases m <;> rfl

def insertList (k : κ) (v : β) : List (κ × β) → List (κ × β)
  | [] => [(k, v)]
  | (a, b) :: l =>
    if k < a then (k, v) :: (a, b) :: l
    else if k = a then (k, v) :: l
    else (a, b) :: insertList k v l

theorem mem_insertList {k : κ} {v : β} {l : List (κ × β)}
    (hl : l.Pairwise fun x y => x.1 < y.1) {x : κ × β} :
    x ∈ insertList k v l ↔ x = (k, v) ∨ x ∈ l ∧ x.1 ≠ k := by
  induction l with
  | nil => simp [insertList]
  | cons y l ih =>
    obtain ⟨a, b⟩ := y
    obtain ⟨hhead, htail⟩ := List.pairwise_cons.mp hl
    simp only [insertList]
    split
    · next hlt =>
      have hne : ∀ z ∈ (a, b) :: l, z.1 ≠ k := by
        intro z hz
        rcases List.mem_cons.mp hz with rfl | hz
        · exact ne_of_gt hlt
        · exact ne_of_gt (lt_trans hlt (hhead z hz))
      rw [List.mem_cons]
      exact or_congr_right ⟨fun hx => ⟨hx, hne x hx⟩, And.left⟩
    · split
      · next heq =>
        subst heq
        have hne : ∀ z ∈ l, z.1 ≠ k := fun z hz => ne_of_gt (hhead z hz)
        rw [List.mem_cons, List.mem_cons]
        constructor
        · rintro (rfl | hx)
          · exact Or.inl rfl
          · exact Or.inr ⟨Or.inr hx, hne x hx⟩
        · rintro (rfl | ⟨rfl | hx, hxk⟩)
          · exact Or.inl rfl
          · exact absurd rfl hxk
          · exact Or.inr hx
      · next hne =>
        rw [List.mem_cons, ih htail, List.mem_cons]
        constructor
        · rintro (rfl | rfl | ⟨hx, hxk⟩)
          · exact Or.inr ⟨Or.inl rfl, fun h => hne h.symm⟩
          · exact Or.inl rfl
          · exact Or.inr ⟨Or.inr hx, hxk⟩
        · rintro (rfl | ⟨rfl | hx, hxk⟩)
          · exact Or.inr (Or.inl rfl)
          · exact Or.inl rfl
          · exact Or.inr (Or.inr ⟨hx, hxk⟩)

theorem insertList_sorted (k : κ) (v : β) {l : List (κ × β)}
    (hl : l.Pairwise fun x y => x.1 < y.1) :
    (insertList k v l).Pairwise fun x y => x.1 < y.1 := by
  induction l with
  | nil => simp [insertList]
  | cons y l ih =>
    obtain ⟨a, b⟩ := y
    obtain ⟨hhead, htail⟩ := List.pairwise_cons.mp hl
    simp only [insertList]
    split
    · next hlt =>
      refine List.pairwise_cons.mpr ⟨fun z hz => ?_, hl⟩
      rcases List.mem_cons.mp hz with rfl | hz
      · exact hlt
      · exact lt_trans hlt (hhead z hz)
    · next hnlt =>
      split
      · next heq => exact List.pairwise_cons.mpr ⟨fun z hz => heq ▸ hhead z hz, htail⟩
      · next hne =>
        refine List.pairwise_cons.mpr ⟨fun z hz => ?_, ih htail⟩
        rcases (mem_insertList htail).mp hz with rfl | ⟨hz, -⟩
        · exact lt_of_le_of_ne (not_lt.mp hnlt) fun h => hne h.symm
        · exact hhead z hz

def insert (m : OrdMap κ β) (k : κ) (v : β) : OrdMap κ β :=
  ⟨insertList k v m.toList, insertList_sorted k v m.sorted⟩

theorem get?_insert (m : OrdMap κ β) (k : κ) (v : β) (a : κ) :
    (m.insert k v).get? a = if a = k then some v else m.get? a := by
  refine Option.ext fun w => ?_
  rw [get?_eq_some_iff]
  simp only [insert, mem_insertList m.sorted, Prod.mk.injEq]
  split
  · next heq => simp [heq, eq_comm]
  · next hne => simp [hne, get?_eq_some_iff]

theorem mem_keys_insert {m : OrdMap κ β} {k a : κ} {v : β} :
    a ∈ (m.insert k v).keys ↔ a = k ∨ a ∈ m.keys := by
  simp only [mem_keys_iff, get?_insert]
  split
  · next heq => simp [heq]
  · next hne => simp [hne]

theorem keys_insert_of_mem {m : OrdMap κ β} {k : κ} {v : β} (h : k ∈ m.keys) :
    (m.insert k v).keys = m.keys := by
  refine eq_of_mem_iff (keys_sorted _) m.keys_sorted fun a => ?_
  rw [mem_keys_insert]
  exact ⟨fun ha => ha.elim (fun heq => heq ▸ h) id, Or.inr⟩

/-- A key above all others goes to the end. -/
theorem toList_insert_last {m : OrdMap κ β} {k : κ} {v : β} (h : ∀ a ∈ m.keys, a < k) :
    (m.insert k v).toList = m.toList ++ [(k, v)] := by
  have hlist : ∀ l : List (κ × β), (∀ x ∈ l, x.1 < k) → insertList k v l = l ++ [(k, v)] := by
    intro l hl
    induction l with
    | nil => rfl
    | cons y l ih =>
      obtain ⟨a, b⟩ := y
      have hlt := hl (a, b) List.mem_cons_self
      rw [insertList, if_neg (lt_asymm hlt), if_neg (ne_of_gt hlt),
        ih fun x hx => hl x (List.mem_cons_of_mem _ hx)]
      rfl
  exact hlist _ fun x hx => h _ (List.mem_map_of_mem hx)

/-- Insertions in key order append. -/
theorem toList_foldl_insert {α : Type} {key : α → κ} {val : α → β} {l : List α} {m : OrdMap κ β}
    (hsorted : l.Pairwise fun a b => key a < key b) (hbelow : ∀ k ∈ m.keys, ∀ a ∈ l, k < key a) :
    (l.foldl (fun m a => m.insert (key a) (val a)) m).toList =
      m.toList ++ l.map fun a => (key a, val a) := by
  induction l generalizing m with
  | nil => simp
  | cons a l ih =>
    obtain ⟨hfirst, hsorted⟩ := List.pairwise_cons.mp hsorted
    rw [List.foldl_cons, ih hsorted, toList_insert_last fun k hk => hbelow k hk a List.mem_cons_self]
    · simp
    · intro k hk b hb
      rcases mem_keys_insert.mp hk with rfl | hk
      · exact hfirst b hb
      · exact hbelow k hk b (List.mem_cons_of_mem _ hb)

theorem get?_foldl_insert_of_notMem {l : List (κ × β)} {m : OrdMap κ β} {k : κ}
    (h : k ∉ l.map Prod.fst) : (l.foldl (fun m x => m.insert x.1 x.2) m).get? k = m.get? k := by
  induction l generalizing m with
  | nil => rfl
  | cons x l ih =>
    simp only [List.map_cons, List.mem_cons, not_or] at h
    rw [List.foldl_cons, ih h.2, get?_insert, if_neg h.1]

/-- Of entries with distinct keys all are found again. -/
theorem get?_foldl_insert {l : List (κ × β)} {m : OrdMap κ β} {k : κ} {v : β}
    (hnodup : (l.map Prod.fst).Nodup) (hmem : (k, v) ∈ l) :
    (l.foldl (fun m x => m.insert x.1 x.2) m).get? k = some v := by
  induction l generalizing m with
  | nil => cases hmem
  | cons x l ih =>
    obtain ⟨hnew, hnodup⟩ := List.nodup_cons.mp hnodup
    rw [List.foldl_cons]
    rcases List.mem_cons.mp hmem with rfl | hmem
    · rw [get?_foldl_insert_of_notMem hnew, get?_insert, if_pos rfl]
    · exact ih hnodup hmem

-- ---------------------------------------------------------------------------
-- Filtering
-- ---------------------------------------------------------------------------

/-- `retain`. -/
def filter (p : κ → β → Bool) (m : OrdMap κ β) : OrdMap κ β where
  toList := m.toList.filter fun x => p x.1 x.2
  sorted := m.sorted.filter _

/-- Nothing goes where every entry passes. -/
theorem filter_eq_self {p : κ → β → Bool} {m : OrdMap κ β}
    (h : ∀ k v, m.get? k = some v → p k v) : m.filter p = m := by
  apply ext
  rw [filter, List.filter_eq_self]
  exact fun x hx => h x.1 x.2 (get?_eq_some_iff.mpr hx)

-- ---------------------------------------------------------------------------
-- Maps over the values
-- ---------------------------------------------------------------------------

def mapIdx (f : Nat → κ → β → γ) (m : OrdMap κ β) : OrdMap κ γ where
  toList := m.toList.mapIdx fun i x => (x.1, f i x.1 x.2)
  sorted := by
    rw [List.pairwise_iff_getElem]
    intro i j hi hj hij
    simp only [List.length_mapIdx] at hi hj
    simp only [List.getElem_mapIdx]
    exact List.pairwise_iff_getElem.mp m.sorted i j hi hj hij

/-- An entry of the result comes from one of the map. -/
theorem exists_of_get?_mapIdx {f : Nat → κ → β → γ} {m : OrdMap κ β} {k : κ} {w : γ}
    (h : (m.mapIdx f).get? k = some w) : ∃ i v, m.get? k = some v ∧ f i k v = w := by
  obtain ⟨i, hi, heq⟩ := List.mem_mapIdx.mp (get?_eq_some_iff.mp h)
  obtain ⟨rfl, rfl⟩ := Prod.mk.inj heq
  exact ⟨i, _, get?_eq_some_iff.mpr (List.getElem_mem hi), rfl⟩

def mapVal (f : κ → β → γ) (m : OrdMap κ β) : OrdMap κ γ where
  toList := m.toList.map fun x => (x.1, f x.1 x.2)
  sorted := List.pairwise_map.mpr m.sorted

theorem get?_mapVal (f : κ → β → γ) (m : OrdMap κ β) (k : κ) :
    (m.mapVal f).get? k = (m.get? k).map (f k) := by
  refine Option.ext fun w => ?_
  simp only [get?_eq_some_iff, Option.map_eq_some_iff, mapVal, List.mem_map, Prod.mk.injEq]
  constructor
  · rintro ⟨x, hx, rfl, rfl⟩
    exact ⟨x.2, hx, rfl⟩
  · rintro ⟨v, hv, rfl⟩
    exact ⟨(k, v), hv, rfl, rfl⟩

/-- `get_mut`, with the change made there. -/
def modify (k : κ) (f : β → β) (m : OrdMap κ β) : OrdMap κ β :=
  m.mapVal fun a v => if a = k then f v else v

theorem toList_mapVal (f : κ → β → γ) (m : OrdMap κ β) :
    (m.mapVal f).toList = m.toList.map fun x => (x.1, f x.1 x.2) :=
  rfl

@[simp]
theorem keys_mapVal (f : κ → β → γ) (m : OrdMap κ β) : (m.mapVal f).keys = m.keys := by
  simp only [keys, mapVal, List.map_map]
  rfl

@[simp]
theorem keys_mapIdx (f : Nat → κ → β → γ) (m : OrdMap κ β) : (m.mapIdx f).keys = m.keys := by
  apply List.ext_getElem?
  intro i
  simp [keys, mapIdx, Function.comp_def]

@[simp]
theorem keys_modify (k : κ) (f : β → β) (m : OrdMap κ β) : (m.modify k f).keys = m.keys :=
  keys_mapVal _ m

theorem mapVal_mapVal {δ : Type} (f : κ → β → γ) (g : κ → γ → δ) (m : OrdMap κ β) :
    (m.mapVal f).mapVal g = m.mapVal fun k v => g k (f k v) := by
  apply ext
  simp only [mapVal, List.map_map]
  rfl

end OrdMap

/-- A set in key order. -/
abbrev OrdSet (κ : Type) [LinearOrder κ] := OrdMap κ Unit

namespace OrdSet

variable {κ : Type} [LinearOrder κ]

def empty : OrdSet κ := OrdMap.empty

def insert (s : OrdSet κ) (k : κ) : OrdSet κ := OrdMap.insert s k ()

theorem mem_insert {s : OrdSet κ} {k a : κ} : a ∈ (s.insert k).keys ↔ a = k ∨ a ∈ s.keys :=
  OrdMap.mem_keys_insert

theorem mem_foldl_insert {l : List κ} {s : OrdSet κ} {k : κ} :
    k ∈ (l.foldl OrdSet.insert s).keys ↔ k ∈ l ∨ k ∈ s.keys := by
  induction l generalizing s with
  | nil => simp
  | cons a l ih =>
    rw [List.foldl_cons, ih, mem_insert, List.mem_cons]
    tauto

/-- Sets with the same elements are equal. -/
theorem ext_keys {s s' : OrdSet κ} (h : ∀ k, k ∈ s.keys ↔ k ∈ s'.keys) : s = s' := by
  apply OrdMap.ext_get?
  intro k
  by_cases hk : k ∈ s.keys
  · obtain ⟨⟨⟩, hv⟩ := OrdMap.mem_keys_iff.mp hk
    obtain ⟨⟨⟩, hv'⟩ := OrdMap.mem_keys_iff.mp ((h k).mp hk)
    rw [hv, hv']
  · rw [OrdMap.get?_eq_none_iff.mpr hk, OrdMap.get?_eq_none_iff.mpr fun hk' => hk ((h k).mpr hk')]

end OrdSet
