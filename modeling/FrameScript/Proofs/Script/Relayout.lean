import FrameScript.Proofs.Script.Passages
import FrameScript.Proofs.Script.Programs

/-!
# Other layout

Two texts are alike if they have the same tokens, and layout between the same ones. What is found in
one of them is found in the other one, with trees of the same outline: the same alternatives are
taken everywhere. So other layout between two tokens makes no difference to a script but for lines.
-/

namespace FrameScript

def Script.withoutLines (script : Script) : Script := script.mapLines fun _ => 0

namespace Script

open Node (outlineAll)

variable {lines : Bool} {s : Spacing} {c d : Cursor} {f : Found}
  {a g g' p q t u k k' l l' : List Char} {ch : Char}

/-- The same tokens with layout in the same places. If lines count, there are as many newlines in
it. -/
inductive Alike (lines : Bool) : List Char → List Char → Prop
  | same {t : List Char} : Alike lines t t
  | layout {g g' k k' : List Char} (h : Layout g k) (h' : Layout g' k') (filled : g ≠ [])
    (filled' : g' ≠ []) (newlines : lines → g.count '\n' = g'.count '\n')
    (more : Alike lines k k') :
    Alike lines (g ++ k) (g' ++ k')
  | mark {p k k' : List Char} (h : Mark p k) (h' : Mark p k') (more : Alike lines k k') :
    Alike lines (p ++ k) (p ++ k')

theorem Alike.symm (h : Alike lines t u) : Alike lines u t := by
  induction h with
  | same => exact .same
  | layout h h' filled filled' newlines _ ih =>
    exact .layout h' h filled' filled (fun counted => (newlines counted).symm) ih
  | mark h h' _ ih => exact .mark h' h ih

theorem Layout.first (h : Layout g k) (filled : g ≠ []) : ∃ p l, g ++ k = p ++ l ∧ Filler p l := by
  cases h with
  | nil => exact absurd rfl filled
  | @cons p g _ filler _ => exact ⟨p, g ++ k, List.append_assoc .., filler⟩

/-- The next character, unless layout or a string begins with it. -/
theorem Alike.next (h : Alike lines c.rest u) (settled : c.Settled) (comes : c.rest = ch :: k)
    (quote : ch ≠ '"') : ∃ k', u = ch :: k' ∧ Alike lines k k' := by
  generalize whole : c.rest = t at h
  cases h with
  | same => exact ⟨k, whole.symm.trans comes, .same⟩
  | layout h _ filled =>
    obtain ⟨p, l, begins, filler⟩ := h.first filled
    exact absurd (whole.trans begins) (settled.no_filler filler)
  | @mark p t u h _ more =>
    rw [whole] at comes
    cases h with
    | quoted => exact absurd (List.cons.inj comes).1.symm quote
    | char =>
      obtain ⟨rfl, rfl⟩ := List.cons.inj comes
      exact ⟨u, rfl, more⟩

theorem Alike.string (h : Alike lines ('"' :: (t ++ '"' :: k)) u) (inside : Quotable t) :
    ∃ k', u = '"' :: (t ++ '"' :: k') ∧ Alike lines k k' := by
  generalize whole : '"' :: (t ++ '"' :: k) = text at h
  cases h with
  | same => exact ⟨k, whole.symm, .same⟩
  | layout h _ filled =>
    obtain ⟨p, l, begins, filler⟩ := h.first filled
    have settled : (Cursor.start ('"' :: (t ++ '"' :: k))).Settled :=
      Cursor.settled_of_next (by decide) rfl
    exact absurd (whole.trans begins) (settled.no_filler filler)
  | @mark p t' u' h _ more =>
    have own : '"' :: (t ++ '"' :: k) = ('"' :: (t ++ ['"'])) ++ k := by simp
    rw [own] at whole
    obtain rfl := (Mark.quoted inside).unique h whole
    obtain rfl := List.append_cancel_left whole
    exact ⟨u', by simp, more⟩

theorem Alike.nil (h : Alike lines [] u) : u = [] := by
  generalize none_left : [] = t at h
  cases h with
  | same => rfl
  | layout _ _ filled => exact absurd (List.append_eq_nil_iff.mp none_left.symm).1 filled
  | mark h => exact absurd (List.append_eq_nil_iff.mp none_left.symm).1 h.ne_nil

theorem Alike.isEmpty (h : Alike lines t u) : t.isEmpty = u.isEmpty := by
  rw [Bool.eq_iff_iff, List.isEmpty_iff, List.isEmpty_iff]
  exact ⟨fun none_left => (none_left ▸ h).nil, fun none_left => (none_left ▸ h.symm).nil⟩

/-- The same is left, and if lines count, the cursors are in the same line. -/
structure Cursor.Alike (lines : Bool) (c d : Cursor) : Prop where
  rest : Script.Alike lines c.rest d.rest
  line : lines → c.line = d.line

namespace Cursor.Alike

theorem symm (h : c.Alike lines d) : d.Alike lines c :=
  ⟨h.rest.symm, fun counted => (h.line counted).symm⟩

theorem after (h : c.Alike lines d) (comes : c.rest = t ++ k) (comes' : d.rest = u ++ k')
    (newlines : lines → t.count '\n' = u.count '\n') (more : Script.Alike lines k k') :
    (c.after t).Alike lines (d.after u) where
  rest := by rwa [rest_after comes, rest_after comes']
  line := by
    intro counted
    rw [Cursor.after, Cursor.after, h.line counted, newlines counted]

theorem settled (h : c.Alike lines d) (settled : c.Settled) : d.Settled := by
  obtain ⟨rest, -⟩ := h
  generalize whole : c.rest = t at rest
  generalize whole' : d.rest = u at rest
  cases rest with
  | same => exact settled.of_rest (whole'.trans whole.symm)
  | layout h _ filled =>
    obtain ⟨p, l, begins, filler⟩ := h.first filled
    exact absurd (whole.trans begins) (settled.no_filler filler)
  | mark _ h' => exact h'.settled whole'

theorem skip (h : c.Alike lines d) : (skipLayout c).Alike lines (skipLayout d) := by
  obtain ⟨rest, line⟩ := h
  generalize whole : c.rest = t at rest
  generalize whole' : d.rest = u at rest
  induction rest generalizing c d with
  | @same t =>
    obtain ⟨g, comes, layout, ends⟩ := layout_skipped c
    have comes' : d.rest = g ++ (skipLayout c).rest := by rw [whole', ← whole, ← comes]
    have settled : (d.after g).Settled :=
      (skipLayout_settled c).of_rest (rest_after comes')
    rw [layout.skip comes', settled.skip]
    refine ⟨by rw [rest_after comes']; exact .same, fun counted => ?_⟩
    rw [ends, Cursor.after, Cursor.after, line counted]
  | layout h h' _ _ newlines more ih =>
    rw [h.skip whole, h'.skip whole']
    refine ih (fun counted => ?_) (rest_after whole) (rest_after whole')
    rw [Cursor.after, Cursor.after, line counted, newlines counted]
  | mark h h' more =>
    rw [(h.settled whole).skip, (h'.settled whole').skip]
    exact ⟨by rw [whole, whole']; exact .mark h h' more, line⟩

theorem next (h : c.Alike lines d) (settled : c.Settled) (comes : c.rest = ch :: k)
    (quote : ch ≠ '"') :
    ∃ k', d.rest = ch :: k' ∧ (c.after [ch]).Alike lines (d.after [ch]) := by
  obtain ⟨k', comes', more⟩ := h.rest.next settled comes quote
  exact ⟨k', comes', h.after (t := [ch]) (u := [ch]) comes comes' (fun _ => rfl) more⟩

theorem plain (h : c.Alike lines d) (plain : ∀ ch ∈ t, isPlain ch) (comes : c.rest = t ++ k) :
    ∃ k', d.rest = t ++ k' ∧ (c.after t).Alike lines (d.after t) := by
  induction t generalizing c d with
  | nil => exact ⟨d.rest, rfl, h⟩
  | cons ch t ih =>
    obtain ⟨first, others⟩ := List.forall_mem_cons.mp plain
    simp only [isPlain, Bool.and_eq_true, Bool.not_eq_true', bne_iff_ne, ne_eq] at first
    obtain ⟨⟨black, quote⟩, slash⟩ := first
    obtain ⟨l, comes', more⟩ := h.next (settled_of_next ⟨black, slash⟩ comes) comes quote
    obtain ⟨k', comes'', more'⟩ := ih more others (rest_after (t := [ch]) comes)
    rw [rest_after (t := [ch]) comes'] at comes''
    rw [after_after, after_after] at more'
    exact ⟨k', by rw [comes', comes'', List.cons_append], more'⟩

end Cursor.Alike

/-- The patterns that are matched with this spacing: tokens, or what has layout between its
parts. -/
def Spacing.allows (s : Spacing) (p : Pattern) : Bool := if s = .atomic then p.plain else p.legible

theorem allows_seq {p q : Pattern} (h : s.allows (.seq p q)) : s.allows p ∧ s.allows q := by
  unfold Spacing.allows at *
  split <;> simp_all [Pattern.plain, Pattern.legible]

theorem allows_alt {p q : Pattern} (h : s.allows (.alt p q)) : s.allows p ∧ s.allows q := by
  unfold Spacing.allows at *
  split <;> simp_all [Pattern.plain, Pattern.legible]

theorem allows_many {p : Pattern} (h : s.allows (.many p)) : s.allows p := by
  unfold Spacing.allows at *
  split <;> simp_all [Pattern.plain, Pattern.legible]

theorem allows_text (h : s.allows (.text t)) :
    (∀ ch ∈ t, isPlain ch) ∨ s ≠ .atomic ∧ t = ['/'] := by
  unfold Spacing.allows at h
  split at h
  · exact .inl (List.all_eq_true.mp h)
  · rename_i spaced
    simp only [Pattern.legible, Bool.or_eq_true, beq_iff_eq] at h
    exact h.imp List.all_eq_true.mp fun slash => ⟨spaced, slash⟩

theorem allows_char {charClass : CharClass} (h : s.allows (.char charClass)) :
    charClass ≠ .any := by
  unfold Spacing.allows at h
  split at h
  · simpa [Pattern.plain] using h
  · cases h

def counted (lines : Bool) : Nat → Nat := if lines then id else fun _ => 0

theorem Cursor.Alike.counted (h : c.Alike lines d) :
    counted lines c.line = counted lines d.line := by
  cases lines with
  | false => rfl
  | true => exact congrArg _ (h.line rfl)

/-- What follows is alike, and so are the trees; a token has taken the same text. -/
structure Found.Same (lines : Bool) (s : Spacing) (c d : Cursor) (f f' : Found) : Prop where
  behind : f.cursor.Alike lines f'.cursor
  trees : outlineAll (counted lines) f.nodes = outlineAll (counted lines) f'.nodes
  taken : s = .atomic → ∃ t k k', c.rest = t ++ k ∧ d.rest = t ++ k' ∧ f.cursor = c.after t ∧
    f'.cursor = d.after t

theorem Found.Same.nothing (h : c.Alike lines d) :
    (Found.nothing c).Same lines s c d (.nothing d) :=
  ⟨h, rfl, fun _ => ⟨[], _, _, rfl, rfl, rfl, rfl⟩⟩

/-- Layout before a match makes no difference. -/
theorem Found.Same.skipped {f' : Found} (h : f.Same lines s (s.skip c) (s.skip d) f') :
    f.Same lines s c d f' := by
  refine ⟨h.behind, h.trees, ?_⟩
  rintro rfl
  exact h.taken rfl

theorem rel_skipped {found found' : Option Found}
    (h : Option.Rel (Found.Same lines s (s.skip c) (s.skip d)) found found') :
    Option.Rel (Found.Same lines s c d) found found' := by
  cases h with
  | none => exact .none
  | some h => exact .some h.skipped

theorem Found.Same.before {f' g g' : Found} (h : f.Same lines s c d f')
    (more : g.Same lines s f.cursor f'.cursor g') :
    (f.before g).Same lines s c d (f'.before g') where
  behind := more.behind
  trees := by
    rw [Found.before, Found.before, Node.outlineAll_append, Node.outlineAll_append, h.trees,
      more.trees]
  taken := by
    rintro rfl
    obtain ⟨t, k, l, comes, comes', ends, ends'⟩ := h.taken rfl
    obtain ⟨u, k', l', behind, behind', last, last'⟩ := more.taken rfl
    rw [ends, Cursor.rest_after comes] at behind
    rw [ends', Cursor.rest_after comes'] at behind'
    refine ⟨t ++ u, k', l', by rw [comes, behind, List.append_assoc],
      by rw [comes', behind', List.append_assoc], ?_, ?_⟩
    · rw [Found.before, last, ends, Cursor.after_after]
    · rw [Found.before, last', ends', Cursor.after_after]

theorem rel_before {f' : Found} {found found' : Option Found} (h : f.Same lines s c d f')
    (more : Option.Rel (Found.Same lines s f.cursor f'.cursor) found found') :
    Option.Rel (Found.Same lines s c d) (found.map f.before) (found'.map f'.before) := by
  cases more with
  | none => exact .none
  | some more => exact .some (h.before more)

theorem Spacing.skip_alike (s : Spacing) (h : c.Alike lines d) :
    (s.skip c).Alike lines (s.skip d) := by
  unfold Spacing.skip
  split
  · exact h.skip
  · exact h

theorem alike_text (allowed : s.allows (.text t)) (begins : s ≠ .atomic → c.Settled)
    (alike : c.Alike lines d) (comes : c.rest = t ++ k) :
    ∃ k', d.rest = t ++ k' ∧ (c.after t).Alike lines (d.after t) := by
  rcases allows_text allowed with plain | ⟨spaced, rfl⟩
  · exact alike.plain plain comes
  · exact alike.next (begins spaced) comes (by decide)

theorem rel_rule {r : Rule} {s' : Spacing} {found found' : Option Found} (spaced : s ≠ .atomic)
    (alike : c.Alike lines d) (token : r.lettered → s' = .atomic)
    (inside : Option.Rel (Found.Same lines s' c d) found found') :
    Option.Rel (Found.Same lines s c d) (found.map fun f => ⟨f.cursor, s.shown r c f⟩)
      (found'.map fun f => ⟨f.cursor, s.shown r d f⟩) := by
  cases inside with
  | none => exact .none
  | some inside =>
    refine .some ⟨inside.behind, ?_, fun atomic => absurd atomic spaced⟩
    simp only [Spacing.shown, if_neg spaced, outlineAll, Node.outline, inside.trees, alike.counted]
    cases lettered : r.lettered with
    | false => rfl
    | true =>
      obtain ⟨t, k, k', comes, comes', ends, ends'⟩ := inside.taken (token lettered)
      rw [ends, ends', Cursor.after_position, Cursor.after_position, comes, comes']
      simp

theorem alike_string {found : Option Found} (h : Finds .spaced (.once (.rule .string)) c found)
    (alike : c.Alike lines d) : ∃ found', Finds .spaced (.once (.rule .string)) d found' ∧
      Option.Rel (Found.Same lines .spaced c d) found found' := by
  cases found with
  | none =>
    refine ⟨none, string_fails fun t k' inside comes' => ?_, .none⟩
    obtain ⟨k, comes, -⟩ := (comes' ▸ alike.symm.rest).string inside
    cases h.unique (finds_string inside comes).2
  | some f =>
    obtain ⟨t, k, inside, comes, rfl⟩ := h.string
    obtain ⟨k', comes', more⟩ := (comes ▸ alike.rest).string inside
    have whole : c.rest = ('"' :: (t ++ ['"'])) ++ k := by simp [comes]
    have whole' : d.rest = ('"' :: (t ++ ['"'])) ++ k' := by simp [comes']
    have content : (c.after ['"']).rest = t ++ '"' :: k := Cursor.rest_after (t := ['"']) comes
    have content' : (d.after ['"']).rest = t ++ '"' :: k' := Cursor.rest_after (t := ['"']) comes'
    refine ⟨_, (finds_string inside comes').2,
      .some ⟨alike.after whole whole' (fun _ => rfl) more, ?_, fun atomic => by cases atomic⟩⟩
    have line : counted lines (c.after ['"']).line = counted lines (d.after ['"']).line := by
      cases lines with
      | false => rfl
      | true => exact congrArg (· + _) (alike.line rfl)
    simp [outlineAll, Node.outline, Cursor.content, Rule.lettered, content, content', line,
      alike.counted]

/-- Where texts are alike, the same is found: the same alternatives are taken. -/
theorem Finds.alike {task : Task} {found : Option Found} (h : Finds s task c found)
    (own : s ≠ .joined) (allowed : s.allows task.pattern)
    (begins : s ≠ .atomic → ∀ p, task = .once p → c.Settled) (alike : c.Alike lines d) :
    ∃ found', Finds s task d found' ∧ Option.Rel (Found.Same lines s c d) found found' := by
  have settles {s : Spacing} (own : s ≠ .joined) (c : Cursor) : s ≠ .atomic → (s.skip c).Settled :=
    fun shown => Spacing.skip_settled (by cases s <;> first | rfl | contradiction) c
  induction h generalizing d with
  | @text s chars c =>
    have begins := fun shown => begins shown _ rfl
    by_cases comes : ∃ k, c.rest = chars ++ k
    · obtain ⟨k, comes⟩ := comes
      obtain ⟨k', comes', behind⟩ := alike_text allowed begins alike comes
      rw [Cursor.dropText?_after comes]
      exact ⟨_, finds_text comes',
        .some ⟨behind, rfl, fun _ => ⟨chars, k, k', comes, comes', rfl, rfl⟩⟩⟩
    · rw [Cursor.dropText?_eq_none (not_exists.mp comes)]
      refine ⟨none, fails_text fun k' comes' => comes ?_, .none⟩
      obtain ⟨k, back, -⟩ := alike_text allowed (fun shown => alike.settled (begins shown))
        alike.symm comes'
      exact ⟨k, back⟩
  | @char s charClass c =>
    have plain {ch : Char} (holds : charClass.holds ch) : ∀ x ∈ [ch], isPlain x := by
      simpa using CharClass.plain (allows_char allowed) holds
    by_cases comes : ∃ ch k, c.rest = ch :: k ∧ charClass.holds ch
    · obtain ⟨ch, k, comes, holds⟩ := comes
      obtain ⟨k', comes', behind⟩ := alike.plain (plain holds) comes
      rw [(Finds.char (s := s)).unique (finds_char comes holds)]
      exact ⟨_, finds_char comes' holds,
        .some ⟨behind, rfl, fun _ => ⟨[ch], k, k', comes, comes', rfl, rfl⟩⟩⟩
    · have fails {e : Cursor} (other : ¬ ∃ ch k, e.rest = ch :: k ∧ charClass.holds ch) :
          Finds s (.once (.char charClass)) e none := by
        refine fails_char fun ch mem => Bool.eq_false_iff.mpr fun holds => ?_
        obtain ⟨k, comes⟩ := List.head?_eq_some_iff.mp mem
        exact other ⟨ch, k, comes, holds⟩
      rw [Finds.char.unique (fails comes)]
      refine ⟨none, fails fun ⟨ch, k', comes', holds⟩ => comes ?_, .none⟩
      obtain ⟨k, back, -⟩ := alike.symm.plain (plain holds) comes'
      exact ⟨ch, k, back, holds⟩
  | start => unfold Spacing.allows at allowed; split at allowed <;> cases allowed
  | @finish s c =>
    have same : c.rest.isEmpty = d.rest.isEmpty := alike.rest.isEmpty
    rw [same]
    refine ⟨_, .finish, ?_⟩
    split
    · exact .some (.nothing alike)
    · exact .none
  | @rule s r c found inner ih =>
    cases s with
    | joined => exact absurd rfl own
    | atomic =>
      obtain rfl : r = .keyword := beq_iff_eq.mp allowed
      obtain ⟨_, finds, same⟩ := ih (by decide) keyword_plain (fun shown => absurd rfl shown) alike
      refine ⟨_, .rule finds, ?_⟩
      cases same with
      | none => exact .none
      | some same => exact .some ⟨same.behind, rfl, same.taken⟩
    | spaced =>
      have allowed : (Pattern.rule r).legible := allowed
      simp only [Pattern.legible, Bool.and_eq_true, bne_iff_ne] at allowed
      obtain ⟨other, part⟩ := allowed
      have settled := begins (by decide) _ rfl
      cases spacing : r.spacing with
      | none =>
        rw [spacing] at ih
        have plain : r.lettered = false := by cases r <;> first | rfl | cases spacing
        obtain ⟨_, finds, same⟩ := ih (by decide) (Rule.legible_pattern spacing part).1
          (fun _ _ _ => settled) alike
        refine ⟨_, .rule (by rwa [spacing]), rel_rule (by decide) alike (fun lettered => ?_) same⟩
        rw [plain] at lettered
        cases lettered
      | some inside =>
        cases inside with
        | spaced => cases r <;> cases spacing
        | joined =>
          obtain rfl : r = .string := by cases r <;> first | rfl | cases spacing
          exact alike_string (.rule inner) alike
        | atomic =>
          rw [spacing] at ih
          obtain ⟨_, finds, same⟩ := ih (by decide) (Rule.plain_pattern spacing other)
            (fun shown => absurd rfl shown) alike
          exact ⟨_, .rule (by rwa [spacing]), rel_rule (by decide) alike (fun _ => rfl) same⟩
  | @seq s first second c f found _ _ ih ih' =>
    obtain ⟨allowed, allowed'⟩ := allows_seq allowed
    obtain ⟨_, finds, same⟩ := ih own allowed (fun shown _ _ => begins shown _ rfl) alike
    cases same with
    | some same =>
      obtain ⟨_, finds', same'⟩ := ih' own allowed' (fun shown _ _ => settles own _ shown)
        (s.skip_alike same.behind)
      exact ⟨_, .seq finds finds', rel_before same (rel_skipped same')⟩
  | stuck _ ih =>
    obtain ⟨_, finds, same⟩ := ih own (allows_seq allowed).1 (fun shown _ _ => begins shown _ rfl)
      alike
    cases same
    exact ⟨none, .stuck finds, .none⟩
  | first _ ih =>
    obtain ⟨_, finds, same⟩ := ih own (allows_alt allowed).1 (fun shown _ _ => begins shown _ rfl)
      alike
    cases same with
    | some same => exact ⟨_, .first finds, .some same⟩
  | second _ _ ih ih' =>
    obtain ⟨allowed, allowed'⟩ := allows_alt allowed
    obtain ⟨_, finds, same⟩ := ih own allowed (fun shown _ _ => begins shown _ rfl) alike
    cases same
    obtain ⟨_, finds', same'⟩ := ih' own allowed' (fun shown _ _ => begins shown _ rfl) alike
    exact ⟨_, .second finds finds', same'⟩
  | present _ ih =>
    obtain ⟨_, finds, same⟩ := ih own allowed (fun shown _ _ => begins shown _ rfl) alike
    cases same with
    | some same => exact ⟨_, .present finds, .some same⟩
  | absent _ ih =>
    obtain ⟨_, finds, same⟩ := ih own allowed (fun shown _ _ => begins shown _ rfl) alike
    cases same
    exact ⟨_, .absent finds, .some (.nothing alike)⟩
  | many _ _ ih ih' =>
    obtain ⟨_, finds, same⟩ := ih own (allows_many allowed) (fun shown _ _ => begins shown _ rfl)
      alike
    cases same with
    | some same =>
      obtain ⟨_, finds', same'⟩ := ih' own allowed (fun _ _ again => by cases again) same.behind
      exact ⟨_, .many finds finds', rel_before same same'⟩
  | never _ ih =>
    obtain ⟨_, finds, same⟩ := ih own (allows_many allowed) (fun shown _ _ => begins shown _ rfl)
      alike
    cases same
    exact ⟨_, .never finds, .some (.nothing alike)⟩
  | refused _ ih =>
    obtain ⟨_, finds, same⟩ := ih own allowed (fun shown _ _ => begins shown _ rfl) alike
    cases same with
    | some same => exact ⟨_, .refused finds, .none⟩
  | allowed _ ih =>
    obtain ⟨_, finds, same⟩ := ih own allowed (fun shown _ _ => begins shown _ rfl) alike
    cases same
    exact ⟨_, .allowed finds, .some (.nothing alike)⟩
  | @more s body c f found _ _ ih ih' =>
    obtain ⟨_, finds, same⟩ := ih own (allows_many allowed) (fun shown _ _ => settles own _ shown)
      (s.skip_alike alike)
    cases same with
    | some same =>
      obtain ⟨_, finds', same'⟩ := ih' own allowed (fun _ _ again => by cases again) same.behind
      exact ⟨_, .more finds finds', rel_before same.skipped same'⟩
  | @enough s body c _ ih =>
    obtain ⟨_, finds, same⟩ := ih own (allows_many allowed) (fun shown _ _ => settles own _ shown)
      (s.skip_alike alike)
    cases same
    exact ⟨_, .enough finds, .some (.nothing alike)⟩

theorem Whole.grammatical (h : Whole t f) : ∀ n ∈ f.nodes,
    n.Grammatical ∧ n.rule ∈ [Rule.functionDecl, .statement, .endOfInput] := by
  obtain ⟨made, all⟩ := Finds.grammatical h (by decide) f rfl
  simp only [Task.pattern, Pattern.items, Pattern.Produces] at made
  obtain ⟨_, _, ⟨parts, shapes, rfl⟩, rfl, rules⟩ := made
  intro n mem
  refine ⟨all n mem, ?_⟩
  have own : n.rule ∈ parts.flatten ++ [.endOfInput] := rules ▸ List.mem_map_of_mem mem
  rcases List.mem_append.mp own with inside | last
  · obtain ⟨part, given, mem⟩ := List.mem_flatten.mp inside
    rcases shapes part given with rfl | rfl
    · simp [List.mem_singleton.mp mem]
    · simp [List.mem_singleton.mp mem]
  · simp [List.mem_singleton.mp last]

theorem Whole.alike (h : Whole t f) (alike : Alike lines t u) : ∃ f', Whole u f' ∧
    outlineAll (counted lines) f.nodes = outlineAll (counted lines) f'.nodes := by
  have clear : Spacing.spaced.allows (.seq .items (.rule .endOfInput)) := by decide
  have start : (Cursor.start t).Alike lines (.start u) := ⟨alike, fun _ => rfl⟩
  obtain ⟨_, finds, same⟩ := Finds.alike h (by decide) clear
    (fun _ _ _ => Cursor.skipLayout_settled _) start.skip
  cases same with
  | some same => exact ⟨_, finds, same.trees⟩

/-- Sources that are alike are accepted together, as the same script but for lines that do not
count. -/
theorem parse_alike (lines : Bool) {source other : String} {script : Script}
    (alike : Alike lines source.toList other.toList) (accepted : parse source = .ok script) :
    ∃ script', parse other = .ok script' ∧
      script'.mapLines (counted lines) = script.mapLines (counted lines) := by
  obtain ⟨f, whole, built⟩ := parse_ok_iff.mp accepted
  obtain ⟨f', whole', trees⟩ := whole.alike alike
  have outline := buildProgram_outline whole.grammatical (counted lines)
  rw [trees, buildProgram_outline whole'.grammatical, built] at outline
  cases built' : buildProgram f'.nodes with
  | error e =>
    rw [built'] at outline
    cases outline
  | ok script' =>
    rw [built'] at outline
    exact ⟨script', parse_ok_iff.mpr ⟨f', whole', built'⟩, Option.some.inj outline⟩

theorem Filler.next (h : Filler p k) (same : k.head? = k'.head?) : Filler p k' := by
  cases h with
  | blank blank => exact .blank blank
  | line body inside ends => exact .line body inside (same ▸ ends)
  | block body inside => exact .block body inside

theorem Layout.next (h : Layout g k) (same : k.head? = k'.head?) : Layout g k' := by
  induction h with
  | nil => exact .nil
  | cons filler _ ih => exact .cons (filler.next (by simp [same])) (ih same)

theorem Layout.append (h : Layout g (l ++ k)) (more : Layout l k) : Layout (g ++ l) k := by
  generalize behind : l ++ k = t at h
  induction h with
  | nil => exact more
  | @cons p g t filler _ ih =>
    subst behind
    rw [List.append_assoc]
    exact .cons (by rwa [List.append_assoc]) (ih rfl)

theorem Mark.next (h : Mark p k) (same : k.head? = k'.head? ∨ ∃ ch ∈ k'.head?, isBlank ch) :
    Mark p k' := by
  cases h with
  | quoted h => exact .quoted h
  | char black quote slash =>
    refine .char black quote fun eq x mem => ?_
    rcases same with same | ⟨ch, head, blank⟩
    · exact slash eq x (same ▸ mem)
    · obtain rfl := Option.some.inj (head.symm.trans mem)
      refine ⟨?_, ?_⟩ <;> (rintro rfl; cases blank)

/-- Texts are alike from the beginning if they are alike from a place between two pieces on. -/
theorem Outside.alike (place : Outside t l) (same : l.head? = l'.head?) (more : Alike lines l l') :
    ∃ a, t = a ++ l ∧ Alike lines t (a ++ l') := by
  induction place with
  | here => exact ⟨[], rfl, more⟩
  | @behind p t l piece _ ih =>
    obtain ⟨a, rfl, alike⟩ := ih same more
    have next : (a ++ l).head? = (a ++ l').head? := by simp [same]
    refine ⟨p ++ a, by simp, ?_⟩
    rw [List.append_assoc]
    cases piece with
    | layout h =>
      exact .layout h.layout (h.next next).layout h.ne_nil h.ne_nil (fun _ => rfl) alike
    | mark h => exact .mark h (h.next (.inl next)) alike

/-- A run of blanks and comments between `a` and `k` that begins with the text or behind a token,
so that no layout comes before it. -/
structure LayoutRun (a g k : List Char) : Prop where
  filled : g ≠ []
  layout : Layout g k
  begins : a = [] ∨ ∃ b p, a = b ++ p ∧ Outside (a ++ (g ++ k)) (p ++ (g ++ k)) ∧ Mark p (g ++ k)

/-- Blanks and complete comments that begin and end with a blank outside a comment. -/
structure Padding (g : List Char) : Prop where
  first : ∃ ch ∈ g.head?, isBlank ch
  last : ∃ front ch, g = front ++ [ch] ∧ isBlank ch ∧ Layout front [ch]

theorem Padding.layout (h : Padding g) (k : List Char) : Layout g k := by
  obtain ⟨front, ch, rfl, blank, front_layout⟩ := h.last
  exact (front_layout.next (by rfl)).append (Filler.blank blank).layout

theorem Padding.ne_nil (h : Padding g) : g ≠ [] := by
  obtain ⟨ch, head, -⟩ := h.first
  rintro rfl
  cases head

/-- Other layout in place of a run makes a text that is alike, but for lines. -/
theorem LayoutRun.alike (run : LayoutRun a g k) (padding : Padding g') :
    Alike false (a ++ (g ++ k)) (a ++ (g' ++ k)) := by
  have here : Alike false (g ++ k) (g' ++ k) :=
    .layout run.layout (padding.layout k) run.filled padding.ne_nil (fun counts => by cases counts)
      .same
  rcases run.begins with rfl | ⟨b, p, rfl, place, mark⟩
  · exact here
  · obtain ⟨ch, head, blank⟩ := padding.first
    have mark' : Mark p (g' ++ k) :=
      mark.next (.inr ⟨ch, by rw [List.head?_append, head]; rfl, blank⟩)
    have next : (p ++ (g ++ k)).head? = (p ++ (g' ++ k)).head? := by
      obtain ⟨x, rest, rfl⟩ := List.exists_cons_of_ne_nil mark.ne_nil
      rfl
    obtain ⟨a, whole, alike⟩ := place.alike next (.mark mark mark' here)
    rw [List.append_assoc] at whole
    obtain rfl := List.append_cancel_right whole
    simpa only [List.append_assoc] using alike

/-- Other blanks and complete comments in place of a run of them make no difference to a script
but for its lines. -/
theorem layout_insignificant {script : Script} (run : LayoutRun a g k)
    (padding : Padding g') (accepted : parse (String.ofList (a ++ (g ++ k))) = .ok script) :
    ∃ script', parse (String.ofList (a ++ (g' ++ k))) = .ok script' ∧
      script'.withoutLines = script.withoutLines :=
  parse_alike false (by simpa using run.alike padding) accepted

theorem layout_insignificant_comments : ∃ script script' : Script,
    parse "a / b" = .ok script ∧ parse "a // \"\n/* / */ / b" = .ok script' ∧
      script'.withoutLines = script.withoutLines := by
  have accepted : (parse "a / b").toOption.map (·.body.length) = some 1 := by decide +kernel
  obtain ⟨script, parsed, -⟩ := exists_parsed accepted
  have run : LayoutRun ['a'] [' '] "/ b".toList :=
    ⟨by decide, (Filler.blank rfl).layout,
      .inr ⟨[], ['a'], rfl, .here, .char rfl (by decide) (by decide)⟩⟩
  have comments : Layout " // \"\n/* / */".toList [' '] :=
    .cons (p := [' ']) (.blank rfl) (.cons (p := "// \"".toList)
      (.line " \"".toList (by decide) fun ch mem => by cases mem; rfl)
      (.cons (p := ['\n']) (.blank rfl) (Filler.block " / ".toList (by decide)).layout))
  have padding : Padding " // \"\n/* / */ ".toList :=
    ⟨⟨' ', rfl, rfl⟩, " // \"\n/* / */".toList, ' ', rfl, rfl, comments⟩
  obtain ⟨script', parsed', same⟩ := layout_insignificant run padding parsed
  exact ⟨script, script', parsed, parsed', same⟩

end Script
end FrameScript
