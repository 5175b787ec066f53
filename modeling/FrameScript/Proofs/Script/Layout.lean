import FrameScript.Proofs.Script.Tokens

/-!
# Layout and the pieces of a text

A text is cut into pieces from its beginning: blanks, complete comments, strings, and the
characters of other tokens. There is one way to do this. A place between two pieces is neither
inside a string nor inside a comment, and skipping layout at such a place passes all the blanks and
comments that come next.
-/

namespace FrameScript
namespace Script

variable {c d : Cursor} {g p q t u k l : List Char} {ch : Char}

/-- A blank or a comment, before what follows it. A line comment reaches up to a newline or the
end, and nothing inside a block comment closes it. -/
inductive Filler : List Char → List Char → Prop
  | blank {ch : Char} {k : List Char} (blank : isBlank ch) : Filler [ch] k
  | line (body : List Char) {k : List Char} (inside : '\n' ∉ body)
    (ends : ∀ ch ∈ k.head?, ch = '\n') :
    Filler ('/' :: '/' :: body) k
  | block (body : List Char) {k : List Char} (inside : ¬ ['*', '/'] <:+: body) :
    Filler ('/' :: '*' :: (body ++ ['*', '/'])) k

theorem Filler.ne_nil (h : Filler p k) : p ≠ [] := by
  cases h <;> simp

theorem Filler.head (h : Filler p k) :
    (∃ ch, p = [ch] ∧ isBlank ch) ∨ ∃ x rest, p = '/' :: x :: rest ∧ (x = '/' ∨ x = '*') := by
  cases h with
  | blank blank => exact .inl ⟨_, rfl, blank⟩
  | line => exact .inr ⟨_, _, rfl, .inl rfl⟩
  | block => exact .inr ⟨_, _, rfl, .inr rfl⟩

/-- The cursor behind one blank or comment, if one comes next. -/
def Cursor.dropFiller? (c : Cursor) : Option Cursor :=
  match c.rest with
  | y :: rest => if isBlank y then some (c.advance y rest) else dropComment? c
  | [] => none

namespace Cursor

theorem endOfLineComment_after {body : List Char} (inside : '\n' ∉ body)
    (ends : ∀ ch ∈ k.head?, ch = '\n') (comes : c.rest = body ++ k) :
    endOfLineComment c (body ++ k) = c.after body := by
  induction body generalizing c with
  | nil =>
    cases k with
    | nil => rfl
    | cons x rest =>
      obtain rfl := ends x rfl
      rfl
  | cons x body ih =>
    obtain ⟨other, inside⟩ := not_or.mp (mt List.mem_cons.mpr inside)
    have first : c.rest = x :: (body ++ k) := comes
    rw [List.cons_append, endOfLineComment, if_neg (Ne.symm other), advance_eq_after first,
      ih inside (rest_after first), after_after]
    rfl

theorem endOfBlockComment?_after {body : List Char} (inside : ¬ ['*', '/'] <:+: body)
    (comes : c.rest = body ++ '*' :: '/' :: k) :
    endOfBlockComment? c (body ++ '*' :: '/' :: k) = some (c.after (body ++ ['*', '/'])) := by
  induction body generalizing c with
  | nil =>
    have star : c.rest = '*' :: ('/' :: k) := comes
    have slash : (c.after ['*']).rest = '/' :: k := rest_after star
    rw [List.nil_append, endOfBlockComment?, advance_eq_after star, advance_eq_after slash,
      after_after]
    rfl
  | cons x body ih =>
    have first : c.rest = x :: (body ++ '*' :: '/' :: k) := comes
    have others : ¬ ['*', '/'] <:+: body := by
      intro mem
      exact inside (mem.trans (List.suffix_cons _ _).isInfix)
    have goes_on : ∀ rest, x = '*' → body ++ '*' :: '/' :: k = '/' :: rest → False := by
      rintro rest rfl same
      cases body with
      | nil => cases same
      | cons y body =>
        cases same
        exact inside ⟨[], body, rfl⟩
    rw [List.cons_append, endOfBlockComment?.eq_3 _ _ _ goes_on, advance_eq_after first,
      ih others (rest_after first), after_after]
    rfl

theorem dropFiller?_after (h : Filler p k) (comes : c.rest = p ++ k) :
    c.dropFiller? = some (c.after p) := by
  cases h with
  | blank blank =>
    have first : c.rest = _ :: k := comes
    rw [dropFiller?, first]
    dsimp only
    rw [if_pos blank, advance_eq_after first]
  | line body inside ends =>
    have slash : c.rest = '/' :: ('/' :: (body ++ k)) := comes
    have slash' : (c.after ['/']).rest = '/' :: (body ++ k) := rest_after slash
    have behind : ((c.after ['/']).after ['/']).rest = body ++ k := rest_after slash'
    rw [dropFiller?, slash]
    dsimp only
    rw [if_neg (by decide), dropComment?, slash]
    change some (endOfLineComment ((c.advance '/' _).advance '/' _) (body ++ k)) = _
    rw [advance_eq_after slash, advance_eq_after slash', endOfLineComment_after inside ends behind,
      after_after, after_after]
    rfl
  | block body inside =>
    have slash : c.rest = '/' :: ('*' :: (body ++ '*' :: '/' :: k)) := by simp [comes]
    have star : (c.after ['/']).rest = '*' :: (body ++ '*' :: '/' :: k) := rest_after slash
    have behind : ((c.after ['/']).after ['*']).rest = body ++ '*' :: '/' :: k := rest_after star
    rw [dropFiller?, slash]
    dsimp only
    rw [if_neg (by decide), dropComment?, slash]
    change endOfBlockComment? ((c.advance '/' _).advance '*' _) (body ++ '*' :: '/' :: k) = _
    rw [advance_eq_after slash, advance_eq_after star, endOfBlockComment?_after inside behind,
      after_after, after_after]
    rfl

theorem exists_line (t : List Char) :
    ∃ body k, t = body ++ k ∧ '\n' ∉ body ∧ ∀ ch ∈ k.head?, ch = '\n' := by
  refine ⟨t.takeWhile (· != '\n'), t.dropWhile (· != '\n'), by simp, ?_, ?_⟩
  · intro mem
    have other := List.all_eq_true.mp (List.all_takeWhile (l := t) (p := (· != '\n'))) _ mem
    simp at other
  · intro ch mem
    have stops := List.head?_dropWhile_not (· != '\n') t
    rw [Option.mem_def.mp mem] at stops
    simpa using stops

/-- A block comment that is closed is closed at the first place. -/
theorem exists_block {next : Cursor} (ends : endOfBlockComment? c t = some next) :
    ∃ body k, t = body ++ '*' :: '/' :: k ∧ ¬ ['*', '/'] <:+: body := by
  induction t generalizing c with
  | nil => cases ends
  | cons y rest ih =>
    rw [endOfBlockComment?.eq_def] at ends
    split at ends
    · cases ends
    · rename_i inside eq
      cases eq
      exact ⟨[], inside, rfl, by simp⟩
    · rename_i other eq
      cases eq
      obtain ⟨body, k, rfl, inside⟩ := ih ends
      refine ⟨y :: body, k, rfl, fun mem => ?_⟩
      rcases List.infix_cons_iff.mp mem with first | later
      · obtain ⟨more, same⟩ := first
        cases body with
        | nil => simp at same
        | cons x body =>
          simp only [List.cons_append, List.cons.injEq] at same
          obtain ⟨rfl, rfl, -⟩ := same
          exact other _ rfl rfl
      · exact inside later

theorem dropFiller?_some (dropped : c.dropFiller? = some d) :
    ∃ p k, Filler p k ∧ c.rest = p ++ k ∧ d = c.after p := by
  have given {p k : List Char} (h : Filler p k) (comes : c.rest = p ++ k) :
      ∃ p k, Filler p k ∧ c.rest = p ++ k ∧ d = c.after p := by
    rw [dropFiller?_after h comes] at dropped
    exact ⟨p, k, h, comes, (Option.some.inj dropped).symm⟩
  have comment := dropped
  rw [dropFiller?] at comment
  split at comment
  · rename_i y rest comes
    split at comment
    · rename_i blank
      exact given (.blank blank) comes
    · rw [dropComment?] at comment
      split at comment
      · rename_i rest comes
        obtain ⟨body, k, rfl, inside, ends⟩ := exists_line rest
        exact given (.line _ inside ends) comes
      · rename_i rest comes
        obtain ⟨body, k, rfl, inside⟩ := exists_block comment
        exact given (k := k) (.block _ inside) (by simp [comes])
      · cases comment
  · cases comment

theorem settled_iff : c.Settled ↔ c.dropFiller? = none := by
  constructor
  · intro settled
    rw [dropFiller?]
    split
    · rename_i y rest comes
      rw [settled.blank y (by rw [comes]; rfl), if_neg Bool.false_ne_true, settled.comment]
    · rfl
  · intro none_here
    rw [dropFiller?] at none_here
    split at none_here
    · rename_i y rest comes
      split at none_here
      · cases none_here
      · rename_i black
        refine ⟨fun x mem => ?_, none_here⟩
        rw [comes] at mem
        cases mem
        simpa using black
    · rename_i ends
      exact settled_of_head (by simp [ends])

theorem Settled.no_filler (settled : c.Settled) (h : Filler p k) : c.rest ≠ p ++ k := by
  intro comes
  rw [settled_iff, dropFiller?_after h comes] at settled
  cases settled

/-- Whether layout comes next depends on the text only. -/
theorem Settled.of_rest (settled : c.Settled) (same : d.rest = c.rest) : d.Settled := by
  rw [settled_iff]
  cases dropped : d.dropFiller? with
  | none => rfl
  | some next =>
    obtain ⟨p, k, filler, comes, -⟩ := dropFiller?_some dropped
    exact absurd (same.symm.trans comes) (settled.no_filler filler)

theorem skipLayoutWith_succ (fuel : Nat) (c : Cursor) :
    skipLayoutWith (fuel + 1) c =
      match c.dropFiller? with
      | some d => skipLayoutWith fuel d
      | none => c := by
  rw [skipLayoutWith, dropFiller?]
  cases c.rest with
  | nil => rfl
  | cons y rest =>
    dsimp only
    split
    · rfl
    · cases dropComment? c <;> rfl

theorem dropFiller?_shorter (dropped : c.dropFiller? = some d) :
    d.rest.length < c.rest.length := by
  obtain ⟨p, k, filler, comes, rfl⟩ := dropFiller?_some dropped
  rw [rest_after comes, comes, List.length_append]
  have := List.length_pos_iff.mpr filler.ne_nil
  omega

/-- More fuel than characters makes no difference. -/
theorem skipLayoutWith_enough {fuel : Nat} (enough : c.rest.length < fuel) :
    skipLayoutWith fuel c = skipLayout c := by
  suffices all : ∀ n m (c : Cursor), c.rest.length < n → c.rest.length < m →
      skipLayoutWith n c = skipLayoutWith m c from
    all _ _ c enough (Nat.lt_succ_self _)
  intro n
  induction n with
  | zero => exact fun m c less => absurd less (Nat.not_lt_zero _)
  | succ n ih =>
    intro m c less less'
    obtain ⟨m, rfl⟩ := Nat.exists_eq_succ_of_ne_zero (Nat.ne_of_gt (Nat.zero_lt_of_lt less'))
    rw [skipLayoutWith_succ, skipLayoutWith_succ]
    cases dropped : c.dropFiller? with
    | none => rfl
    | some d =>
      have shorter := dropFiller?_shorter dropped
      exact ih m d (by omega) (by omega)

theorem skipLayout_filler (h : Filler p k) (comes : c.rest = p ++ k) :
    skipLayout c = skipLayout (c.after p) := by
  have dropped := dropFiller?_after h comes
  have shorter := dropFiller?_shorter dropped
  rw [skipLayout, skipLayoutWith_succ, dropped]
  exact skipLayoutWith_enough shorter

end Cursor

/-- Blanks and comments up to the text that follows. -/
inductive Layout : List Char → List Char → Prop
  | nil {k : List Char} : Layout [] k
  | cons {p g k : List Char} (h : Filler p (g ++ k)) (more : Layout g k) : Layout (p ++ g) k

theorem Filler.layout (h : Filler p k) : Layout p k := by
  have whole : Layout (p ++ []) k := .cons h .nil
  rwa [List.append_nil] at whole

theorem Layout.skip (h : Layout g k) (comes : c.rest = g ++ k) :
    skipLayout c = skipLayout (c.after g) := by
  induction h generalizing c with
  | nil => rfl
  | @cons p g k filler _ ih =>
    have first : c.rest = p ++ (g ++ k) := by rw [comes, List.append_assoc]
    rw [Cursor.skipLayout_filler filler first, ih (Cursor.rest_after first), Cursor.after_after]

theorem layout_skipped (c : Cursor) : ∃ g, c.rest = g ++ (skipLayout c).rest ∧
    Layout g (skipLayout c).rest ∧ skipLayout c = c.after g := by
  generalize size : c.rest.length = n
  induction n using Nat.strongRecOn generalizing c with
  | _ n ih =>
    cases dropped : c.dropFiller? with
    | none =>
      have same := (Cursor.settled_iff.mpr dropped).skip
      refine ⟨[], by rw [same]; rfl, .nil, same⟩
    | some d =>
      have shorter := Cursor.dropFiller?_shorter dropped
      obtain ⟨p, k, filler, comes, rfl⟩ := Cursor.dropFiller?_some dropped
      obtain ⟨g, behind, layout, ends⟩ := ih _ (size ▸ shorter) (c.after p) rfl
      rw [← Cursor.skipLayout_filler filler comes, Cursor.rest_after comes] at behind
      rw [← Cursor.skipLayout_filler filler comes] at layout ends
      rw [behind] at filler
      refine ⟨p ++ g, ?_, .cons filler layout, by rw [ends, Cursor.after_after]⟩
      rw [List.append_assoc, ← behind, comes]

/-- A string, or one character of another token. A slash that begins a comment is none. -/
inductive Mark : List Char → List Char → Prop
  | quoted {t k : List Char} (h : Quotable t) : Mark ('"' :: (t ++ ['"'])) k
  | char {ch : Char} {k : List Char} (black : isBlank ch = false) (quote : ch ≠ '"')
    (slash : ch = '/' → ∀ x ∈ k.head?, x ≠ '/' ∧ x ≠ '*') : Mark [ch] k

/-- A piece of a text, before what follows it. -/
inductive Piece : List Char → List Char → Prop
  | layout {p k : List Char} (h : Filler p k) : Piece p k
  | mark {p k : List Char} (h : Mark p k) : Piece p k

/-- The text, cut into pieces, comes to the place where `k` is left. This place is neither inside
a string nor inside a comment. -/
inductive Outside : List Char → List Char → Prop
  | here {t : List Char} : Outside t t
  | behind {p k l : List Char} (h : Piece p k) (more : Outside k l) : Outside (p ++ k) l

theorem Mark.ne_nil (h : Mark p k) : p ≠ [] := by
  cases h <;> simp

theorem Piece.ne_nil (h : Piece p k) : p ≠ [] := by
  cases h with
  | layout h => exact h.ne_nil
  | mark h => exact h.ne_nil

theorem Mark.settled (h : Mark p k) (comes : c.rest = p ++ k) : c.Settled := by
  cases h with
  | quoted => exact Cursor.settled_of_next (by decide) comes
  | @char ch _ black _ slash =>
    by_cases same : ch = '/'
    · subst same
      exact Cursor.settled_slash comes (slash rfl)
    · exact Cursor.settled_of_next ⟨black, same⟩ comes

theorem Filler.unique (h : Filler p k) (h' : Filler q l) (same : p ++ k = q ++ l) : p = q := by
  have first := Cursor.dropFiller?_after (c := ⟨p ++ k, 0, 0⟩) h rfl
  rw [Cursor.dropFiller?_after (c := ⟨p ++ k, 0, 0⟩) h' same] at first
  have length : q.length = p.length := by
    have positions := congrArg Cursor.position (Option.some.inj first)
    simpa [Cursor.after] using positions
  exact (List.append_inj same length.symm).1

theorem Quotable.unique (h : Quotable t) (h' : Quotable u) (same : t ++ '"' :: k = u ++ '"' :: l) :
    t = u := by
  induction h generalizing u with
  | nil =>
    cases h' with
    | nil => rfl
    | escape ch _ => cases same
    | plain quote _ _ =>
      cases same
      exact absurd rfl quote
  | escape ch _ ih =>
    cases h' with
    | nil => cases same
    | escape ch' h' =>
      simp only [List.cons_append, List.cons.injEq, true_and] at same
      rw [same.1, ih h' same.2]
    | plain _ slash _ =>
      simp only [List.cons_append, List.cons.injEq] at same
      exact absurd same.1.symm slash
  | plain quote slash _ ih =>
    cases h' with
    | nil =>
      cases same
      exact absurd rfl quote
    | escape ch' _ =>
      simp only [List.cons_append, List.cons.injEq] at same
      exact absurd same.1 slash
    | plain _ _ h' =>
      simp only [List.cons_append, List.cons.injEq] at same
      rw [same.1, ih h' same.2]

theorem Mark.unique (h : Mark p k) (h' : Mark q l) (same : p ++ k = q ++ l) : p = q := by
  cases h with
  | quoted h =>
    cases h' with
    | quoted h' =>
      simp only [List.cons_append, List.append_assoc, List.cons.injEq, true_and,
        List.nil_append] at same
      rw [h.unique h' same]
    | char _ quote _ =>
      simp only [List.cons_append, List.cons.injEq] at same
      exact absurd same.1.symm quote
  | char _ quote _ =>
    cases h' with
    | quoted _ =>
      simp only [List.cons_append, List.cons.injEq] at same
      exact absurd same.1 quote
    | char _ _ _ =>
      simp only [List.cons_append, List.cons.injEq] at same
      rw [same.1]

/-- There is one piece to cut off. -/
theorem Piece.unique (h : Piece p k) (h' : Piece q l) (same : p ++ k = q ++ l) :
    p = q ∧ k = l := by
  have first : p = q := by
    cases h with
    | layout h =>
      cases h' with
      | layout h' => exact h.unique h' same
      | mark h' =>
        have settled := h'.settled (c := ⟨q ++ l, 0, 0⟩) rfl
        exact absurd same.symm (settled.no_filler h)
    | mark h =>
      cases h' with
      | layout h' =>
        have settled := h.settled (c := ⟨p ++ k, 0, 0⟩) rfl
        exact absurd same (settled.no_filler h')
      | mark h' => exact h.unique h' same
  subst first
  exact ⟨rfl, List.append_cancel_left same⟩

namespace Outside

theorem length_le (h : Outside t k) : k.length ≤ t.length := by
  induction h with
  | here => exact Nat.le_refl _
  | behind _ _ ih =>
    rw [List.length_append]
    omega

theorem trans (h : Outside t k) (h' : Outside k l) : Outside t l := by
  induction h with
  | here => exact h'
  | behind piece _ ih => exact .behind piece (ih h')

theorem later (h : Outside t k) (h' : Outside t l) (further : l.length ≤ k.length) :
    Outside k l := by
  induction h with
  | here => exact h'
  | @behind p t k piece more ih =>
    generalize whole : p ++ t = text at h'
    cases h' with
    | here =>
      have shorter := more.length_le
      have filled := List.length_pos_iff.mpr piece.ne_nil
      rw [← whole, List.length_append] at further
      omega
    | behind piece' more' =>
      obtain ⟨rfl, rfl⟩ := piece.unique piece' whole
      exact ih more' further

end Outside

theorem Layout.outside (h : Layout g k) : Outside (g ++ k) k := by
  induction h with
  | nil => exact .here
  | cons filler _ ih =>
    rw [List.append_assoc]
    exact .behind (.layout filler) ih

theorem Layout.within (h : Layout g k) (place : Outside (g ++ k) l) (before : k.length < l.length) :
    ∃ p q, l = p ++ q ∧ Filler p q := by
  induction h with
  | nil => exact absurd place.length_le (Nat.not_le_of_lt before)
  | @cons p g k filler _ ih =>
    rw [List.append_assoc] at place
    generalize whole : p ++ (g ++ k) = text at place
    cases place with
    | here => exact ⟨p, g ++ k, whole.symm, filler⟩
    | behind piece more =>
      obtain ⟨rfl, rfl⟩ := (Piece.layout filler).unique piece whole
      exact ih more before

/-- A slash inside quotes is no comment, and a quote inside a comment opens no string. -/
example : Outside "\"//\"/*\"*/x".toList ['x'] :=
  .behind (p := "\"//\"".toList) (.mark (.quoted (t := ['/', '/'])
      (.plain (by decide) (by decide) (.plain (by decide) (by decide) .nil))))
    (.behind (p := "/*\"*/".toList) (.layout (.block ['"'] (by decide))) .here)

end Script
end FrameScript
