-- SUMMARY: Expressions of operators with levels: their tokens are read in one way only, and which parentheses are enough.
import Mathlib.Algebra.Order.Group.Int

/-!
# Operator precedence

Postfix operators bind tighter than all others, and no prefix operator competes with a binary one.
What is printed fits when every operand binds as tightly as its operator asks for. A reader takes
tokens for what fits, which is never more than one tree.
-/

namespace Precedence

inductive Token (A Pre Post Op : Type) where
  | atom (a : A)
  | pre (p : Pre)
  | post (q : Post)
  | op (o : Op)
  | lparen
  | rparen

inductive Tree (A Pre Post Op : Type) where
  | atom (a : A)
  | pre (p : Pre) (t : Tree A Pre Post Op)
  | post (q : Post) (t : Tree A Pre Post Op)
  | node (o : Op) (l r : Tree A Pre Post Op)

variable {A Pre Post Op : Type}

def Tree.leaves : Tree A Pre Post Op → Nat
  | .atom _ => 1
  | .pre _ t => t.leaves
  | .post _ t => t.leaves
  | .node _ l r => l.leaves + r.leaves

theorem Tree.leaves_pos (t : Tree A Pre Post Op) : 0 < t.leaves := by
  induction t with
  | atom a => exact Nat.one_pos
  | pre p t ih => exact ih
  | post q t ih => exact ih
  | node o l r ihl ihr => exact Nat.add_pos_left ihl _

/-- A tree with its parentheses. -/
inductive Printed (A Pre Post Op : Type) where
  | atom (a : A)
  | paren (c : Printed A Pre Post Op)
  | pre (p : Pre) (c : Printed A Pre Post Op)
  | post (q : Post) (c : Printed A Pre Post Op)
  | node (o : Op) (l r : Printed A Pre Post Op)

/-- How tightly operators bind, and how tightly they want their operands to. Postfix operators
want theirs as tight as they are. -/
structure Levels (A Pre Op : Type) where
  atom : A → Nat
  pre : Pre → Nat
  operand : Pre → Nat
  post : Nat
  level : Op → Nat
  left : Op → Nat
  right : Op → Nat
  pre_le_operand : ∀ p, pre p ≤ operand p
  level_le_left : ∀ o, level o ≤ left o
  level_le_right : ∀ o, level o ≤ right o
  /-- Operators of one level associate to one side. -/
  oneSide : ∀ o o', level o = level o' → left o = level o → right o' ≠ level o'
  /-- A prefix operator goes with all of a binary expression, or with its left operand. -/
  pre_apart : ∀ p o, left o ≤ pre p → level o < operand p
  pre_lt_post : ∀ p, pre p < post
  level_lt_post : ∀ o, level o < post

namespace Printed

def tree : Printed A Pre Post Op → Tree A Pre Post Op
  | .atom a => .atom a
  | .paren c => c.tree
  | .pre p c => .pre p c.tree
  | .post q c => .post q c.tree
  | .node o l r => .node o l.tree r.tree

def tokens : Printed A Pre Post Op → List (Token A Pre Post Op)
  | .atom a => [.atom a]
  | .paren c => .lparen :: (c.tokens ++ [.rparen])
  | .pre p c => .pre p :: c.tokens
  | .post q c => c.tokens ++ [.post q]
  | .node o l r => l.tokens ++ .op o :: r.tokens

/-- Every operand binds as tightly as its operator asks for, the whole at least at level `n`. -/
def Fits (L : Levels A Pre Op) : Nat → Printed A Pre Post Op → Prop
  | n, .atom a => n ≤ L.atom a
  | _, .paren c => c.Fits L 0
  | n, .pre p c => n ≤ L.pre p ∧ c.Fits L (L.operand p)
  | n, .post _ c => n ≤ L.post ∧ c.Fits L L.post
  | n, .node o l r => n ≤ L.level o ∧ l.Fits L (L.left o) ∧ r.Fits L (L.right o)

end Printed

/-- The tree that a reader takes the tokens for. -/
def Reads (L : Levels A Pre Op) (ts : List (Token A Pre Post Op)) (t : Tree A Pre Post Op) : Prop :=
  ∃ c : Printed A Pre Post Op, c.Fits L 0 ∧ c.tokens = ts ∧ c.tree = t

/-! ## Splitting tokens -/

theorem append_cons_cases {α : Type} {xs ys p q : List α} {a b : α}
    (h : xs ++ a :: ys = p ++ b :: q) :
    (∃ m, xs = p ++ b :: m ∧ q = m ++ a :: ys) ∨ (xs = p ∧ a = b ∧ ys = q) ∨
      ∃ m, p = xs ++ a :: m ∧ ys = m ++ b :: q := by
  rcases List.append_eq_append_iff.mp h with ⟨m, hp, hm⟩ | ⟨m, hxs, hm⟩
  · cases m with
    | nil =>
      rw [List.append_nil] at hp
      obtain ⟨hab, hys⟩ := List.cons.inj hm
      exact Or.inr (Or.inl ⟨hp.symm, hab, hys⟩)
    | cons x m =>
      obtain ⟨rfl, hys⟩ := List.cons.inj hm
      exact Or.inr (Or.inr ⟨m, hp, hys⟩)
  · cases m with
    | nil =>
      rw [List.append_nil] at hxs
      obtain ⟨hba, hq⟩ := List.cons.inj hm
      exact Or.inr (Or.inl ⟨hxs, hba.symm, hq.symm⟩)
    | cons x m =>
      obtain ⟨rfl, hq⟩ := List.cons.inj hm
      exact Or.inl ⟨m, hxs, hq⟩

/-- What is not the last element is in front of it. -/
theorem split_before_last {α : Type} {xs p q : List α} {a b : α} (hne : b ≠ a)
    (h : xs ++ [a] = p ++ b :: q) : ∃ m, xs = p ++ b :: m := by
  rcases append_cons_cases h with ⟨m, hxs, -⟩ | ⟨-, hab, -⟩ | ⟨m, -, hm⟩
  · exact ⟨m, hxs⟩
  · exact absurd hab.symm hne
  · cases m <;> cases hm

def Token.isAtom : Token A Pre Post Op → Bool
  | .atom _ => true
  | _ => false

def Token.weight : Token A Pre Post Op → Int
  | .lparen => 1
  | .rparen => -1
  | .atom _ | .pre _ | .post _ | .op _ => 0

/-- Parentheses that are open. -/
def depth : List (Token A Pre Post Op) → Int
  | [] => 0
  | t :: ts => t.weight + depth ts

@[simp] theorem depth_nil : depth ([] : List (Token A Pre Post Op)) = 0 := rfl

@[simp] theorem depth_cons (t : Token A Pre Post Op) (ts : List (Token A Pre Post Op)) :
    depth (t :: ts) = t.weight + depth ts := rfl

@[simp] theorem depth_append (ts ts' : List (Token A Pre Post Op)) :
    depth (ts ++ ts') = depth ts + depth ts' := by
  induction ts with
  | nil => rw [List.nil_append, depth_nil, Int.zero_add]
  | cons t ts ih => rw [List.cons_append, depth_cons, ih, depth_cons, Int.add_assoc]

namespace Printed

variable {L : Levels A Pre Op} {c c' : Printed A Pre Post Op}

theorem tokens_ne_nil (c : Printed A Pre Post Op) : c.tokens ≠ [] := by
  cases c <;> simp [tokens]

@[simp] theorem depth_tokens (c : Printed A Pre Post Op) : depth c.tokens = 0 := by
  induction c with
  | atom a => rfl
  | paren c ih => simp [tokens, ih, Token.weight]
  | pre p c ih => simp [tokens, ih, Token.weight]
  | post q c ih => simp [tokens, ih, Token.weight]
  | node o l r ihl ihr => simp [tokens, ihl, ihr, Token.weight]

/-- No prefix closes more than it opens. -/
theorem depth_prefix_nonneg {p q : List (Token A Pre Post Op)} (h : c.tokens = p ++ q) :
    0 ≤ depth p := by
  induction c generalizing p q with
  | atom a =>
    cases p with
    | nil => exact Int.le_refl 0
    | cons t p =>
      obtain ⟨rfl, hp⟩ := List.cons.inj h
      rw [(List.append_eq_nil_iff.mp hp.symm).1]
      exact Int.le_refl 0
  | paren c ih =>
    cases p with
    | nil => exact Int.le_refl 0
    | cons t p =>
      obtain ⟨rfl, hp⟩ := List.cons.inj h
      rw [depth_cons, Token.weight]
      rcases List.append_eq_append_iff.mp hp with ⟨m, rfl, hm⟩ | ⟨m, hm, -⟩
      · rw [depth_append, depth_tokens]
        rcases List.singleton_eq_append_iff.mp hm with ⟨rfl, -⟩ | ⟨rfl, -⟩
        · simp
        · simp [Token.weight]
      · have := ih hm
        omega
  | pre p' c ih =>
    cases p with
    | nil => exact Int.le_refl 0
    | cons t p =>
      obtain ⟨rfl, hp⟩ := List.cons.inj h
      rw [depth_cons, Token.weight, Int.zero_add]
      exact ih hp
  | post q' c ih =>
    rcases List.append_eq_append_iff.mp h with ⟨m, rfl, hm⟩ | ⟨m, hm, -⟩
    · rw [depth_append, depth_tokens]
      rcases List.singleton_eq_append_iff.mp hm with ⟨rfl, -⟩ | ⟨rfl, -⟩
      · simp
      · simp [Token.weight]
    · exact ih hm
  | node o l r ihl ihr =>
    rcases List.append_eq_append_iff.mp h with ⟨m, rfl, hm⟩ | ⟨m, hm, -⟩
    · rw [depth_append, depth_tokens, Int.zero_add]
      cases m with
      | nil => exact Int.le_refl 0
      | cons t m =>
        obtain ⟨rfl, hr⟩ := List.cons.inj hm
        rw [depth_cons, Token.weight, Int.zero_add]
        exact ihr hr
    · exact ihl hm

/-- Inside parentheses the first one is open. -/
theorem depth_inside_pos {p q : List (Token A Pre Post Op)}
    (h : (paren c).tokens = p ++ q) (hp : p ≠ []) (hq : q ≠ []) : 0 < depth p := by
  cases p with
  | nil => exact absurd rfl hp
  | cons t p =>
    obtain ⟨rfl, htail⟩ := List.cons.inj h
    rw [depth_cons, Token.weight]
    rcases List.append_eq_append_iff.mp htail with ⟨m, rfl, hm⟩ | ⟨m, hm, -⟩
    · rcases List.singleton_eq_append_iff.mp hm with ⟨rfl, -⟩ | ⟨-, rfl⟩
      · simp
      · exact absurd rfl hq
    · have := depth_prefix_nonneg hm
      omega

/-! ## What fits is read in one way -/

/-- A binary operator outside parentheses binds at least as tightly as the whole. -/
theorem Fits.le_level {n : Nat} (hfits : c.Fits L n) {p q : List (Token A Pre Post Op)} {o : Op}
    (h : c.tokens = p ++ .op o :: q) (hdepth : depth p = 0) : n ≤ L.level o := by
  induction c generalizing n p q with
  | atom a =>
    cases p with
    | nil => cases (List.cons.inj h).1
    | cons t p => exact absurd (List.cons.inj h).2.symm (by simp)
  | paren c ih =>
    cases p with
    | nil => cases (List.cons.inj h).1
    | cons t p =>
      have := depth_inside_pos h (List.cons_ne_nil _ _) (List.cons_ne_nil _ _)
      omega
  | pre p' c ih =>
    cases p with
    | nil => cases (List.cons.inj h).1
    | cons t p =>
      obtain ⟨rfl, hp⟩ := List.cons.inj h
      rw [depth_cons, Token.weight, Int.zero_add] at hdepth
      exact hfits.1.trans ((L.pre_le_operand p').trans (ih hfits.2 hp hdepth))
  | post q' c ih =>
    obtain ⟨m, hm⟩ := split_before_last (by simp) h
    exact hfits.1.trans (ih hfits.2 hm hdepth)
  | node o' l r ihl ihr =>
    obtain ⟨hlevel, hl, hr⟩ := hfits
    rcases append_cons_cases h with ⟨m, hm, -⟩ | ⟨-, ho, -⟩ | ⟨m, rfl, hm⟩
    · exact hlevel.trans ((L.level_le_left o').trans (ihl hl hm hdepth))
    · cases ho
      exact hlevel
    · rw [depth_append, depth_tokens, depth_cons, Token.weight] at hdepth
      exact hlevel.trans ((L.level_le_right o').trans (ihr hr hm (by omega)))

/-- A prefix operator at the front binds at least as tightly as the whole. -/
theorem Fits.le_pre {n : Nat} (hfits : c.Fits L n) {p : Pre} {ts : List (Token A Pre Post Op)}
    (h : c.tokens = .pre p :: ts) : n ≤ L.pre p := by
  induction c generalizing n ts with
  | atom a => cases (List.cons.inj h).1
  | paren c ih => cases (List.cons.inj h).1
  | pre p' c ih =>
    cases (List.cons.inj h).1
    exact hfits.1
  | post q c ih =>
    obtain ⟨t, ts', htokens⟩ := List.exists_cons_of_ne_nil c.tokens_ne_nil
    rw [tokens, htokens] at h
    obtain ⟨rfl, -⟩ := List.cons.inj h
    exact hfits.1.trans (ih hfits.2 htokens)
  | node o l r ihl ihr =>
    obtain ⟨t, ts', htokens⟩ := List.exists_cons_of_ne_nil l.tokens_ne_nil
    rw [tokens, htokens] at h
    obtain ⟨rfl, -⟩ := List.cons.inj h
    exact hfits.1.trans ((L.level_le_left o).trans (ihl hfits.2.1 htokens))

theorem atom_ne_node (a : A) (o : Op) (l r : Printed A Pre Post Op) :
    (atom a).tokens ≠ (node o l r).tokens := by
  intro h
  obtain ⟨t, ts, htokens⟩ := List.exists_cons_of_ne_nil l.tokens_ne_nil
  rw [tokens, tokens, htokens] at h
  exact absurd (List.cons.inj h).2.symm (by simp)

theorem paren_ne_node (o : Op) (l r : Printed A Pre Post Op) :
    (paren c).tokens ≠ (node o l r).tokens := by
  intro h
  have hpos := depth_inside_pos h l.tokens_ne_nil (List.cons_ne_nil _ _)
  rw [depth_tokens] at hpos
  exact absurd hpos (Int.lt_irrefl 0)

theorem paren_ne_post (q : Post) (c c' : Printed A Pre Post Op) :
    (paren c).tokens ≠ (post q c').tokens := by
  intro h
  cases List.append_inj_right' (List.cons_append.trans h) rfl

theorem Fits.pre_ne_node {n n' : Nat} {p : Pre} {o : Op} {l r : Printed A Pre Post Op}
    (hc : (pre p c).Fits L n) (hnode : (node o l r).Fits L n') :
    (pre p c).tokens ≠ (node o l r).tokens := by
  intro h
  obtain ⟨t, ts, htokens⟩ := List.exists_cons_of_ne_nil l.tokens_ne_nil
  have hdepth := l.depth_tokens
  rw [tokens, tokens, htokens] at h
  obtain ⟨rfl, hbehind⟩ := List.cons.inj h
  rw [htokens, depth_cons, Token.weight, Int.zero_add] at hdepth
  have hbinary := hc.2.le_level hbehind hdepth
  have hfront := L.pre_apart p o (hnode.2.1.le_pre htokens)
  omega

theorem Fits.post_ne_node {n : Nat} {q : Post} (hc : (post q c).Fits L n) (o : Op)
    (l r : Printed A Pre Post Op) : (post q c).tokens ≠ (node o l r).tokens := by
  intro h
  have hpost : (post q c).Fits L L.post := ⟨Nat.le_refl _, hc.2⟩
  have hle := hpost.le_level h l.depth_tokens
  have := L.level_lt_post o
  omega

theorem Fits.post_ne_pre {n : Nat} {q : Post} (hc : (post q c).Fits L n) (p : Pre)
    (c' : Printed A Pre Post Op) : (post q c).tokens ≠ (pre p c').tokens := by
  intro h
  have hpost : (post q c).Fits L L.post := ⟨Nat.le_refl _, hc.2⟩
  have hle := hpost.le_pre h
  have := L.pre_lt_post p
  omega

/-- Two binary operators that could each be the last one applied are one. -/
theorem Fits.not_split {n n' : Nat} {l r l' r' : Printed A Pre Post Op} {o o' : Op}
    (hc : (node o l r).Fits L n) (hc' : (node o' l' r').Fits L n')
    (m : List (Token A Pre Post Op)) :
    ¬ (l.tokens = l'.tokens ++ .op o' :: m ∧ r'.tokens = m ++ .op o :: r.tokens) := by
  rintro ⟨hl, hr⟩
  have hdepth := congrArg depth hl
  rw [depth_tokens, depth_append, depth_tokens, depth_cons, Token.weight] at hdepth
  have hleft := hc.2.1.le_level hl l'.depth_tokens
  have hright := hc'.2.2.le_level hr (by omega)
  have := L.level_le_left o
  have := L.level_le_right o'
  exact L.oneSide o o' (by omega) (by omega) (by omega)

/-- What fits and has the same tokens is the same. -/
theorem Fits.eq_of_tokens {n n' : Nat} (hc : c.Fits L n) (hc' : c'.Fits L n')
    (h : c.tokens = c'.tokens) : c = c' := by
  induction c generalizing n n' c' with
  | atom a =>
    cases c' with
    | atom a' => rw [Token.atom.inj (List.cons.inj h).1]
    | paren c' => cases (List.cons.inj h).1
    | pre p' c' => cases (List.cons.inj h).1
    | post q' c' =>
      rcases List.singleton_eq_append_iff.mp h with ⟨-, h⟩ | ⟨-, h⟩ <;> cases h
    | node o' l' r' => exact absurd h (atom_ne_node a o' l' r')
  | paren c ih =>
    cases c' with
    | atom a' => cases (List.cons.inj h).1
    | paren c' =>
      have hinner : c'.Fits L 0 := hc'
      rw [ih hc hinner (List.append_inj_left' (List.cons.inj h).2 rfl)]
    | pre p' c' => cases (List.cons.inj h).1
    | post q' c' => exact absurd h (paren_ne_post q' c c')
    | node o' l' r' => exact absurd h (paren_ne_node o' l' r')
  | pre p c ih =>
    cases c' with
    | atom a' => cases (List.cons.inj h).1
    | paren c' => cases (List.cons.inj h).1
    | pre p' c' =>
      obtain ⟨hp, htokens⟩ := List.cons.inj h
      rw [Token.pre.inj hp, ih hc.2 hc'.2 htokens]
    | post q' c' => exact absurd h.symm (hc'.post_ne_pre p c)
    | node o' l' r' => exact absurd h (hc.pre_ne_node hc')
  | post q c ih =>
    cases c' with
    | atom a' =>
      rcases List.singleton_eq_append_iff.mp h.symm with ⟨-, h⟩ | ⟨-, h⟩ <;> cases h
    | paren c' => exact absurd h.symm (paren_ne_post q c' c)
    | pre p' c' => exact absurd h (hc.post_ne_pre p' c')
    | post q' c' =>
      obtain ⟨htokens, hq⟩ := List.append_inj' h rfl
      rw [ih hc.2 hc'.2 htokens, Token.post.inj (List.cons.inj hq).1]
    | node o' l' r' => exact absurd h (hc.post_ne_node o' l' r')
  | node o l r ihl ihr =>
    cases c' with
    | atom a' => exact absurd h.symm (atom_ne_node a' o l r)
    | paren c' => exact absurd h.symm (paren_ne_node o l r)
    | pre p' c' => exact absurd h.symm (hc'.pre_ne_node hc)
    | post q' c' => exact absurd h.symm (hc'.post_ne_node o l r)
    | node o' l' r' =>
      rcases append_cons_cases h with ⟨m, hl, hr⟩ | ⟨hl, ho, hr⟩ | ⟨m, hl, hr⟩
      · exact absurd ⟨hl, hr⟩ (Fits.not_split hc hc' m)
      · rw [ihl hc.2.1 hc'.2.1 hl, ihr hc.2.2 hc'.2.2 hr, Token.op.inj ho]
      · exact absurd ⟨hl, hr⟩ (Fits.not_split hc' hc m)

/-! ## What does not fit is not read as meant -/

theorem countP_tokens (c : Printed A Pre Post Op) :
    c.tokens.countP Token.isAtom = c.tree.leaves := by
  induction c with
  | atom a => rfl
  | paren c ih => simp [tokens, tree, Token.isAtom, ih]
  | pre p c ih => simp [tokens, tree, Token.isAtom, Tree.leaves, ih]
  | post q c ih => simp [tokens, tree, Token.isAtom, Tree.leaves, ih]
  | node o l r ihl ihr => simp [tokens, tree, Token.isAtom, Tree.leaves, ihl, ihr]

/-- An operand follows a binary operator. -/
theorem countP_behind_pos {p q : List (Token A Pre Post Op)} {o : Op}
    (h : c.tokens = p ++ .op o :: q) : 0 < q.countP Token.isAtom := by
  induction c generalizing p q with
  | atom a =>
    cases p with
    | nil => cases (List.cons.inj h).1
    | cons t p => exact absurd (List.cons.inj h).2.symm (by simp)
  | paren c ih =>
    cases p with
    | nil => cases (List.cons.inj h).1
    | cons t p =>
      rcases append_cons_cases (List.cons.inj h).2 with ⟨m, hm, rfl⟩ | ⟨-, ht, -⟩ | ⟨m, -, hm⟩
      · rw [List.countP_append]
        exact Nat.lt_of_lt_of_le (ih hm) (Nat.le_add_right _ _)
      · cases ht
      · cases m <;> cases hm
  | pre p' c ih =>
    cases p with
    | nil => cases (List.cons.inj h).1
    | cons t p => exact ih (List.cons.inj h).2
  | post q' c ih =>
    rcases append_cons_cases h with ⟨m, hm, rfl⟩ | ⟨-, ht, -⟩ | ⟨m, -, hm⟩
    · rw [List.countP_append]
      exact Nat.lt_of_lt_of_le (ih hm) (Nat.le_add_right _ _)
    · cases ht
    · cases m <;> cases hm
  | node o' l r ihl ihr =>
    have hr : 0 < r.tokens.countP Token.isAtom := by
      rw [countP_tokens]
      exact r.tree.leaves_pos
    rcases append_cons_cases h with ⟨m, -, rfl⟩ | ⟨-, -, rfl⟩ | ⟨m, -, hm⟩
    · rw [List.countP_append, List.countP_cons]
      omega
    · exact hr
    · exact ihr hm

/-- An operand does not begin with another one that has as many leaves. -/
theorem tokens_ne_behind (htree : c.tree = c'.tree) (o : Op) (m : List (Token A Pre Post Op)) :
    c.tokens ≠ c'.tokens ++ .op o :: m := by
  intro h
  have hbehind := countP_behind_pos h
  have hcount := congrArg (List.countP Token.isAtom) h
  rw [List.countP_append, List.countP_cons, countP_tokens, countP_tokens, htree] at hcount
  omega

/-- Where trees and tokens are the same, the parentheses are. -/
theorem eq_of_tokens_of_tree (h : c.tokens = c'.tokens) (htree : c.tree = c'.tree) : c = c' := by
  induction c generalizing c' with
  | atom a =>
    cases c' with
    | atom a' => rw [Tree.atom.inj htree]
    | paren c' => cases (List.cons.inj h).1
    | _ => cases htree
  | paren c ih =>
    cases c' with
    | atom a' => cases (List.cons.inj h).1
    | paren c' => rw [ih (List.append_inj_left' (List.cons.inj h).2 rfl) htree]
    | pre p' c' => cases (List.cons.inj h).1
    | post q' c' => exact absurd h (paren_ne_post q' c c')
    | node o' l' r' => exact absurd h (paren_ne_node o' l' r')
  | pre p c ih =>
    cases c' with
    | paren c' => cases (List.cons.inj h).1
    | pre p' c' =>
      obtain ⟨rfl, hc⟩ := Tree.pre.inj htree
      rw [ih (List.cons.inj h).2 hc]
    | _ => cases htree
  | post q c ih =>
    cases c' with
    | paren c' => exact absurd h.symm (paren_ne_post q c' c)
    | post q' c' =>
      obtain ⟨rfl, hc⟩ := Tree.post.inj htree
      rw [ih (List.append_inj_left' h rfl) hc]
    | _ => cases htree
  | node o l r ihl ihr =>
    cases c' with
    | paren c' => exact absurd h.symm (paren_ne_node o l r)
    | node o' l' r' =>
      obtain ⟨rfl, hl, hr⟩ := Tree.node.inj htree
      rcases append_cons_cases h with ⟨m, htokens, -⟩ | ⟨hltokens, -, hrtokens⟩ | ⟨m, htokens, -⟩
      · exact absurd htokens (tokens_ne_behind hl o m)
      · rw [ihl hltokens hl, ihr hrtokens hr]
      · exact absurd htokens (tokens_ne_behind hl.symm o m)
    | _ => cases htree

end Printed

/-- Tokens are read as one tree. -/
theorem Reads.unique {L : Levels A Pre Op} {ts : List (Token A Pre Post Op)}
    {t t' : Tree A Pre Post Op} (h : Reads L ts t) (h' : Reads L ts t') : t = t' := by
  obtain ⟨c, hfits, rfl, rfl⟩ := h
  obtain ⟨c', hfits', htokens, rfl⟩ := h'
  rw [hfits.eq_of_tokens hfits' htokens.symm]

/-- What is printed is read as meant exactly when it fits. -/
theorem reads_only_iff {L : Levels A Pre Op} (c : Printed A Pre Post Op) :
    (∀ t, Reads L c.tokens t ↔ t = c.tree) ↔ c.Fits L 0 := by
  constructor
  · intro h
    obtain ⟨c', hfits, htokens, htree⟩ := (h c.tree).mpr rfl
    rwa [← Printed.eq_of_tokens_of_tree htokens htree]
  · intro hfits t
    have hself : Reads L c.tokens c.tree := ⟨c, hfits, rfl, rfl⟩
    exact ⟨fun h => h.unique hself, fun h => h ▸ hself⟩

end Precedence
