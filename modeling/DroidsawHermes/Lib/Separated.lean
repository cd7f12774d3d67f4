-- SUMMARY: Lists joined by a separator, and when cutting at the separator gives back what was joined.
import Mathlib.Data.List.Infix
import Mathlib.Data.String.Basic

/-!
# Separators

Cutting a list at a separator undoes joining at it when no joined part contains the
separator, provided that the first element of the separator does not come again in it.
-/

namespace Separated

variable {α : Type}

/-- An occurrence that starts in front of another one ends in front of it too. -/
theorem isPrefix_append_sep {c : α} {t : List α} (hc : c ∉ t) {x : α} {a b : List α} :
    c :: t <+: x :: a ++ (c :: t ++ b) ↔ c :: t <+: x :: a := by
  refine ⟨fun h => ?_, fun h => h.trans (List.prefix_append _ _)⟩
  by_cases hlen : (c :: t).length ≤ (x :: a).length
  · exact List.prefix_of_prefix_length_le h (List.prefix_append _ _) hlen
  · -- The first element of the second occurrence would be a later one of the first.
    have htail : t <+: a ++ (c :: t ++ b) := (List.cons_prefix_cons.mp h).2
    have hlt : a.length < t.length := by
      simp only [List.length_cons] at hlen
      omega
    have hat : t[a.length]? = some c := by
      obtain ⟨rest, hrest⟩ := htail
      have := congrArg (·[a.length]?) hrest
      simpa [List.getElem?_append_left hlt] using this
    exact absurd (List.mem_of_getElem? hat) hc

variable [DecidableEq α] {sep : List α}

/-! ## Cutting -/

/-- Cuts at the leftmost occurrences. `skip` elements are left of an occurrence already cut
at, and `piece` is what was read since, in reverse. -/
def cutFrom (sep : List α) : Nat → List α → List α → List (List α)
  | _, piece, [] => [piece.reverse]
  | skip + 1, piece, _ :: rest => cutFrom sep skip piece rest
  | 0, piece, x :: rest =>
    if sep <+: x :: rest then piece.reverse :: cutFrom sep (sep.length - 1) [] rest
    else cutFrom sep 0 (x :: piece) rest

/-- The parts of a list between the occurrences of a separator. -/
def cut (sep l : List α) : List (List α) := cutFrom sep 0 [] l

/-- The parts before and after the first occurrence. -/
def cutOnce (sep : List α) : List α → Option (List α × List α)
  | [] => none
  | x :: rest =>
    if sep <+: x :: rest then some ([], (x :: rest).drop sep.length)
    else (cutOnce sep rest).map fun parts => (x :: parts.1, parts.2)

theorem cutFrom_drop (skip : Nat) (piece l : List α) (h : skip ≤ l.length) :
    cutFrom sep skip piece l = cutFrom sep 0 piece (l.drop skip) := by
  induction l generalizing skip with
  | nil =>
    obtain rfl : skip = 0 := by simpa using h
    rfl
  | cons x rest ih =>
    cases skip with
    | zero => rfl
    | succ skip => simpa [cutFrom] using ih skip (by simpa using h)

theorem cutFrom_ne_nil (skip : Nat) (piece l : List α) : cutFrom sep skip piece l ≠ [] := by
  induction l generalizing skip piece with
  | nil => simp [cutFrom]
  | cons x rest ih =>
    cases skip with
    | zero =>
      rw [cutFrom]
      split <;> simp [ih]
    | succ skip => exact ih skip piece

theorem cut_ne_nil (sep l : List α) : cut sep l ≠ [] := cutFrom_ne_nil 0 [] l

theorem cutFrom_of_not_infix {l : List α} (h : ¬ sep <:+: l) (piece : List α) :
    cutFrom sep 0 piece l = [piece.reverse ++ l] := by
  induction l generalizing piece with
  | nil => simp [cutFrom]
  | cons x rest ih =>
    have hhead : ¬ sep <+: x :: rest := fun hp => h hp.isInfix
    have hrest : ¬ sep <:+: rest := fun hi => h (hi.trans (List.suffix_cons x rest).isInfix)
    rw [cutFrom, if_neg hhead, ih hrest]
    simp

/-- A list without the separator is not cut. -/
theorem cut_of_not_infix {l : List α} (h : ¬ sep <:+: l) : cut sep l = [l] := by
  rw [cut, cutFrom_of_not_infix h]
  rfl

theorem cutFrom_sep_append (hsep : sep ≠ []) (piece l : List α) :
    cutFrom sep 0 piece (sep ++ l) = piece.reverse :: cut sep l := by
  obtain ⟨c, t, rfl⟩ := List.exists_cons_of_ne_nil hsep
  rw [List.cons_append, cutFrom, if_pos (by simp [List.cons_prefix_cons]),
    cutFrom_drop _ _ _ (by simp)]
  simp [cut]

/-! ## Separators whose first element is no other element of theirs -/

section
variable {c : α} {t : List α}

theorem cutFrom_append (hc : c ∉ t) (skip : Nat) (piece a b : List α) (h : skip ≤ a.length) :
    cutFrom (c :: t) skip piece (a ++ (c :: t ++ b))
      = cutFrom (c :: t) skip piece a ++ cut (c :: t) b := by
  induction a generalizing skip piece with
  | nil =>
    obtain rfl : skip = 0 := by simpa using h
    simpa [cutFrom] using cutFrom_sep_append (List.cons_ne_nil c t) piece b
  | cons x a ih =>
    cases skip with
    | succ skip => simpa [cutFrom] using ih skip piece (by simpa using h)
    | zero =>
      rw [List.cons_append, cutFrom, cutFrom, ← List.cons_append]
      by_cases hp : c :: t <+: x :: a
      · have hlen : t.length ≤ a.length := by simpa using hp.length_le
        rw [if_pos hp, if_pos ((isPrefix_append_sep hc).mpr hp)]
        simpa using ih t.length [] hlen
      · rw [if_neg hp, if_neg (mt (isPrefix_append_sep hc).mp hp)]
        exact ih 0 (x :: piece) (Nat.zero_le _)

/-- Two lists with the separator between them are cut one by one. -/
theorem cut_append (hc : c ∉ t) (a b : List α) :
    cut (c :: t) (a ++ (c :: t ++ b)) = cut (c :: t) a ++ cut (c :: t) b :=
  cutFrom_append hc 0 [] a b (Nat.zero_le _)

theorem one_lt_length_cut (hc : c ∉ t) {l : List α} (h : c :: t <:+: l) :
    1 < (cut (c :: t) l).length := by
  obtain ⟨a, b, rfl⟩ := h
  have ha := List.length_pos_of_ne_nil (cut_ne_nil (c :: t) a)
  have hb := List.length_pos_of_ne_nil (cut_ne_nil (c :: t) b)
  rw [List.append_assoc, cut_append hc, List.length_append]
  omega

/-- The parts of a joined list are those of the lists that were joined. -/
theorem cut_intercalate (hc : c ∉ t) {items : List (List α)} (h : items ≠ []) :
    cut (c :: t) ((c :: t).intercalate items) = items.flatMap (cut (c :: t)) := by
  induction items with
  | nil => exact absurd rfl h
  | cons item items ih =>
    cases items with
    | nil => simp
    | cons next items =>
      rw [List.intercalate_cons_cons, List.append_assoc, cut_append hc, ih (List.cons_ne_nil _ _)]
      rfl

theorem length_le_length_flatMap_cut (sep : List α) (items : List (List α)) :
    items.length ≤ (items.flatMap (cut sep)).length := by
  induction items with
  | nil => simp
  | cons item items ih =>
    have hitem := List.length_pos_of_ne_nil (cut_ne_nil sep item)
    simp only [List.flatMap_cons, List.length_append, List.length_cons]
    omega

theorem flatMap_cut {items : List (List α)} (h : ∀ item ∈ items, ¬ sep <:+: item) :
    items.flatMap (cut sep) = items := by
  induction items with
  | nil => rfl
  | cons item items ih =>
    rw [List.forall_mem_cons] at h
    rw [List.flatMap_cons, cut_of_not_infix h.1, ih h.2]
    rfl

/-- As many parts as lists: no list was cut. -/
theorem not_infix_of_length_flatMap_cut (hc : c ∉ t) {items : List (List α)}
    (h : (items.flatMap (cut (c :: t))).length = items.length) :
    ∀ item ∈ items, ¬ c :: t <:+: item := by
  induction items with
  | nil => simp
  | cons item items ih =>
    have hle := length_le_length_flatMap_cut (c :: t) items
    have hitem := List.length_pos_of_ne_nil (cut_ne_nil (c :: t) item)
    simp only [List.flatMap_cons, List.length_append, List.length_cons] at h
    rw [List.forall_mem_cons]
    constructor
    · intro hin
      have := one_lt_length_cut hc hin
      omega
    · exact ih (by omega)

/-- Cutting gives back as many parts as were joined exactly when it gives back the parts. -/
theorem cut_intercalate_iff (hc : c ∉ t) {items : List (List α)} (h : items ≠ []) :
    cut (c :: t) ((c :: t).intercalate items) = items ↔ ∀ item ∈ items, ¬ c :: t <:+: item := by
  rw [cut_intercalate hc h]
  exact ⟨fun heq => not_infix_of_length_flatMap_cut hc (by rw [heq]), flatMap_cut⟩

end

/-- The parts of a first cut, with the separator between them. -/
theorem eq_of_cutOnce {sep l a b : List α} (h : cutOnce sep l = some (a, b)) :
    l = a ++ sep ++ b := by
  induction l generalizing a with
  | nil => cases h
  | cons x rest ih =>
    rw [cutOnce] at h
    split at h
    · next hstart =>
      obtain ⟨tail, htail⟩ := hstart
      cases h
      rw [← htail, List.drop_left, List.nil_append]
    · obtain ⟨⟨a', b'⟩, hparts, heq⟩ := Option.map_eq_some_iff.mp h
      cases heq
      rw [ih hparts]
      rfl

/-- The first cut is behind a part that has nothing of the separator. -/
theorem cutOnce_append {c : α} {t a : List α} (h : c ∉ a) (b : List α) :
    cutOnce (c :: t) (a ++ (c :: t ++ b)) = some (a, b) := by
  induction a with
  | nil => simp [cutOnce, List.cons_prefix_cons]
  | cons x a ih =>
    rw [List.mem_cons, not_or] at h
    have hp : ¬ c :: t <+: x :: (a ++ (c :: t ++ b)) := fun hp => h.1 (List.cons_prefix_cons.mp hp).1
    rw [List.cons_append, cutOnce, if_neg hp, ih h.2]
    rfl

/-! ## Strings -/

section
open String

theorem unoffsetBy_append (a b : List Char) :
    Pos.Raw.unoffsetBy ⟨utf8Len (a ++ b)⟩ ⟨utf8Len b⟩ = ⟨utf8Len a⟩ := by
  simp [Pos.Raw.unoffsetBy]

/-- Where a scan stands: `l` is behind the last occurrence, `m` was read since, the part `p`
of the separator was read behind it, and `r` is left. -/
structure At (s sep l m p r q : List Char) : Prop where
  text : s = l ++ m ++ p ++ r
  sep : sep = p ++ q

section
variable {s sep l m p r q : List Char} {c d : Char} (acc : List String)

theorem splitOnAux_nil (h : At s sep l m p [] q) :
    splitOnAux (ofList s) (ofList sep) ⟨utf8Len l⟩ ⟨utf8Len (l ++ m ++ p)⟩ ⟨utf8Len p⟩ acc
      = acc.reverse ++ [ofList (m ++ p)] := by
  obtain ⟨rfl, rfl⟩ := h
  have hend := (atEnd_of_valid (l ++ m ++ p) []).mpr rfl
  have hextract : Pos.Raw.extract (ofList (l ++ m ++ p ++ [])) ⟨utf8Len l⟩ ⟨utf8Len (l ++ m ++ p)⟩
      = ofList (m ++ p) := by
    simpa [List.append_assoc, -ofList_append] using extract_of_valid l (m ++ p) []
  rw [splitOnAux, if_pos hend, hextract, List.reverse_cons]

/-- The last element of the separator is read. -/
theorem splitOnAux_end (h : At s sep l m p (c :: r) [c]) :
    splitOnAux (ofList s) (ofList sep) ⟨utf8Len l⟩ ⟨utf8Len (l ++ m ++ p)⟩ ⟨utf8Len p⟩ acc
      = splitOnAux (ofList s) (ofList sep) ⟨utf8Len (l ++ m ++ p ++ [c])⟩
          ⟨utf8Len (l ++ m ++ p ++ [c])⟩ 0 (ofList m :: acc) := by
  obtain ⟨rfl, rfl⟩ := h
  have hend := mt (atEnd_of_valid (l ++ m ++ p) (c :: r)).mp (List.cons_ne_nil _ _)
  have hsep := (atEnd_of_valid (p ++ [c]) []).mpr rfl
  have hi : utf8Len (l ++ m ++ p) + c.utf8Size = utf8Len (l ++ m ++ p ++ [c]) := by
    simp [Nat.add_assoc]
  have hj : utf8Len p + c.utf8Size = utf8Len (p ++ [c]) := by simp
  have hback := unoffsetBy_append (l ++ m) (p ++ [c])
  have hextract : Pos.Raw.extract (ofList (l ++ m ++ p ++ c :: r)) ⟨utf8Len l⟩ ⟨utf8Len (l ++ m)⟩
      = ofList m := by
    simpa [Nat.add_assoc, -ofList_append] using extract_of_valid l m (p ++ c :: r)
  rw [← List.append_assoc] at hback
  rw [List.append_nil] at hsep
  conv_lhs => rw [splitOnAux]
  rw [if_neg hend]
  simp only [get_of_valid, next_of_valid, List.headD_cons, BEq.rfl, if_true, hi, hj]
  rw [if_pos hsep, hback, hextract]

/-- One more element of the separator is read. -/
theorem splitOnAux_more (h : At s sep l m p (c :: r) (c :: q)) (hq : q ≠ []) :
    splitOnAux (ofList s) (ofList sep) ⟨utf8Len l⟩ ⟨utf8Len (l ++ m ++ p)⟩ ⟨utf8Len p⟩ acc
      = splitOnAux (ofList s) (ofList sep) ⟨utf8Len l⟩ ⟨utf8Len (l ++ m ++ (p ++ [c]))⟩
          ⟨utf8Len (p ++ [c])⟩ acc := by
  obtain ⟨rfl, rfl⟩ := h
  have hend := mt (atEnd_of_valid (l ++ m ++ p) (c :: r)).mp (List.cons_ne_nil _ _)
  have hsep := mt (atEnd_of_valid (p ++ [c]) q).mp hq
  have hi : utf8Len (l ++ m ++ p) + c.utf8Size = utf8Len (l ++ m ++ (p ++ [c])) := by
    simp [Nat.add_assoc]
  have hj : utf8Len p + c.utf8Size = utf8Len (p ++ [c]) := by simp
  rw [List.append_assoc, List.singleton_append] at hsep
  conv_lhs => rw [splitOnAux]
  rw [if_neg hend]
  simp only [get_of_valid, next_of_valid, List.headD_cons, BEq.rfl, if_true, hi, hj]
  rw [if_neg hsep]

/-- No occurrence starts behind `m`. -/
theorem splitOnAux_ne {x : Char} {rest : List Char} (h : At s sep l m p (c :: r) (d :: q))
    (hne : c ≠ d) (hx : p ++ c :: r = x :: rest) :
    splitOnAux (ofList s) (ofList sep) ⟨utf8Len l⟩ ⟨utf8Len (l ++ m ++ p)⟩ ⟨utf8Len p⟩ acc
      = splitOnAux (ofList s) (ofList sep) ⟨utf8Len l⟩ ⟨utf8Len (l ++ (m ++ [x]))⟩ 0 acc := by
  obtain ⟨rfl, rfl⟩ := h
  have hend := mt (atEnd_of_valid (l ++ m ++ p) (c :: r)).mp (List.cons_ne_nil _ _)
  have hnext := next_of_valid (l ++ m) x rest
  have hm : utf8Len (l ++ m) + x.utf8Size = utf8Len (l ++ (m ++ [x])) := by simp [Nat.add_assoc]
  rw [← hx, ← List.append_assoc] at hnext
  conv_lhs => rw [splitOnAux]
  rw [if_neg hend]
  simp only [get_of_valid, List.headD_cons, beq_iff_eq, if_neg hne]
  rw [unoffsetBy_append, hnext, hm]

end

theorem splitOnAux_eq {s sep l m p r q : List Char} (h : At s sep l m p r q) (hq : q ≠ [])
    (acc : List String) :
    splitOnAux (ofList s) (ofList sep) ⟨utf8Len l⟩ ⟨utf8Len (l ++ m ++ p)⟩ ⟨utf8Len p⟩ acc
      = acc.reverse ++ (cutFrom sep 0 m.reverse (p ++ r)).map ofList := by
  induction hn : p.length + r.length using Nat.strongRecOn generalizing l m p r q acc with
  | ind n ih =>
  have hsep : sep ≠ [] := by
    rw [h.sep]
    exact List.append_ne_nil_of_right_ne_nil p hq
  induction q generalizing p r with
  | nil => exact absurd rfl hq
  | cons d q ihq =>
    cases r with
    | nil =>
      have hshort : ¬ sep <:+: p := fun hi => by
        have := hi.length_le
        simp [h.sep] at this
      rw [splitOnAux_nil acc h, List.append_nil, cutFrom_of_not_infix hshort]
      simp [-ofList_append]
    | cons c r =>
      by_cases hcd : c = d
      · subst hcd
        by_cases hend : q = []
        · subst hend
          have hnew : At s sep (l ++ m ++ p ++ [c]) [] [] r sep := ⟨by simp [h.text], rfl⟩
          have := ih r.length (by simp at hn; omega) hnew hsep (ofList m :: acc) (by simp)
          have hcut : cutFrom sep 0 m.reverse (p ++ c :: r) = m :: cut sep r := by
            have hlist : p ++ c :: r = sep ++ r := by simp [h.sep]
            rw [hlist, cutFrom_sep_append hsep, List.reverse_reverse]
          rw [splitOnAux_end acc h, hcut]
          simpa [cut, -ofList_append] using this
        · have hmore : At s sep l m (p ++ [c]) r q := ⟨by simp [h.text], by simp [h.sep]⟩
          have := ihq hmore hend (by simp at hn ⊢; omega)
          rw [splitOnAux_more acc h hend, this]
          simp
      · obtain ⟨x, rest, hx⟩ : ∃ x rest, p ++ c :: r = x :: rest :=
          List.exists_cons_of_ne_nil (by simp)
        have hlen := congrArg List.length hx
        have hnew : At s sep l (m ++ [x]) [] rest sep := ⟨by simp [h.text, ← hx], rfl⟩
        have := ih rest.length (by simp at hn hlen; omega) hnew hsep acc (by simp)
        have hno : ¬ sep <+: x :: rest := by
          rw [h.sep, ← hx, List.prefix_append_right_inj, List.cons_prefix_cons]
          exact fun hp => hcd hp.1.symm
        rw [splitOnAux_ne acc h hcd hx, hx, cutFrom, if_neg hno]
        simpa [-ofList_append] using this

/-- `String.splitOn` cuts at the separator. -/
theorem splitOn_eq (s : String) {sep : String} (h : sep ≠ "") :
    s.splitOn sep = (cut sep.toList s.toList).map ofList := by
  have hsep : sep.toList ≠ [] := by simpa using h
  have hstart : At s.toList sep.toList [] [] [] s.toList sep.toList := ⟨rfl, rfl⟩
  simpa [splitOn, h, cut] using splitOnAux_eq hstart hsep []

end

end Separated
