import FrameScript.Proofs.Script.Lexemes

/-!
# What a match passes

From a place where no layout begins, a match passes whole pieces of the text: it ends neither inside
a string nor inside a comment, and with the source it has passed everything. A slash for a division
is no exception, since an operand must follow, and none begins with a star.
-/

namespace FrameScript
namespace Script

variable {s : Spacing} {c : Cursor} {t k : List Char} {f : Found}

/-- The pattern can end with the sign of a division. -/
def Pattern.endsInSlash : Pattern → Bool
  | text chars => chars == ['/']
  | rule r => r == .opDiv
  | seq _ second => second.endsInSlash
  | alt first second => first.endsInSlash || second.endsInSlash
  | opt body => body.endsInSlash
  | char _ | start | finish | many _ | reject _ => false

/-- The texts in the pattern are of plain characters or a slash, what follows a slash does not
begin with a star, and the inside of a string is not in it. -/
def Pattern.legible : Pattern → Bool
  | text chars => chars.all isPlain || chars == ['/']
  | char _ | start => false
  | finish => true
  | rule r => r != .stringContent && r != .program
  | reject body => body.legible
  | seq first second =>
    first.legible && second.legible && (!first.endsInSlash || second.avoids '*')
  | alt first second => first.legible && second.legible
  | opt body => body.legible
  | many body => body.legible && !body.endsInSlash

theorem Rule.legible_pattern {r : Rule} (spacing : r.spacing = none) (part : r ≠ .program) :
    r.pattern.legible ∧ (r.pattern.endsInSlash → r = .opDiv) := by
  cases r <;> first | decide | exact absurd rfl part | cases spacing

theorem outside_plain (plain : ∀ ch ∈ t, isPlain ch) : Outside (t ++ k) k := by
  induction t with
  | nil => exact .here
  | cons ch rest ih =>
    obtain ⟨first, others⟩ := List.forall_mem_cons.mp plain
    simp only [isPlain, Bool.and_eq_true, Bool.not_eq_true', bne_iff_ne, ne_eq] at first
    obtain ⟨⟨black, quote⟩, slash⟩ := first
    exact .behind (p := [ch]) (.mark (.char black quote fun same => absurd same slash)) (ih others)

theorem Cursor.outside_skip (c : Cursor) : Outside c.rest (skipLayout c).rest := by
  obtain ⟨g, comes, layout, -⟩ := layout_skipped c
  rw [comes]
  exact layout.outside

theorem Cursor.Settled.outside_slash (settled : c.Settled) (comes : c.rest = '/' :: k) :
    Outside c.rest k ∨ '*' ∈ k.head? := by
  by_cases star : '*' ∈ k.head?
  · exact .inr star
  · left
    have mark : Mark ['/'] k := by
      refine .char (by decide) (by decide) fun _ x mem => ⟨?_, ?_⟩
      · rintro rfl
        obtain ⟨rest, rfl⟩ := List.head?_eq_some_iff.mp mem
        obtain ⟨body, l, rfl, inside, ends⟩ := exists_line rest
        exact settled.no_filler (.line _ inside ends) comes
      · rintro rfl
        exact star mem
    rw [comes]
    exact .behind (p := ['/']) (.mark mark) .here

/-- Where a second part has been found, a slash before it was no exception. -/
theorem passes_first {first second : Pattern} {g : Found}
    (passed : Outside c.rest f.cursor.rest ∨ first.endsInSlash ∧ '*' ∈ f.cursor.rest.head?)
    (apart : first.endsInSlash = false ∨ second.avoids '*')
    (found : Finds .spaced (.once second) (skipLayout f.cursor) (some g)) :
    Outside c.rest f.cursor.rest := by
  rcases passed with passed | ⟨slash, star⟩
  · exact passed
  · obtain ⟨rest, comes⟩ := List.head?_eq_some_iff.mp star
    have settled : f.cursor.Settled := Cursor.settled_of_next (by decide) comes
    have fails := fails_of_avoids (apart.resolve_left (by simp [slash])) .spaced (by decide) comes
    rw [settled.skip] at found
    cases found.unique fails

theorem Finds.passes {task : Task} {found : Option Found} (h : Finds s task c found)
    (spaced : s = .spaced) (begins : ∀ p, task = .once p → c.Settled)
    (legible : task.pattern.legible) : ∀ f, found = some f →
      Outside c.rest f.cursor.rest ∨ task.pattern.endsInSlash ∧ '*' ∈ f.cursor.rest.head? := by
  induction h with
  | @text s chars c =>
    intro f same
    obtain ⟨next, dropped, rfl⟩ := Option.map_eq_some_iff.mp same
    obtain ⟨k, comes⟩ := Cursor.dropText?_prefix dropped
    rw [Cursor.dropText?_after comes] at dropped
    cases dropped
    rw [Found.nothing, Cursor.rest_after comes]
    simp only [Task.pattern, Pattern.legible, Bool.or_eq_true, beq_iff_eq] at legible
    rcases legible with plain | rfl
    · exact .inl (comes ▸ outside_plain (List.all_eq_true.mp plain))
    · exact ((begins _ rfl).outside_slash comes).imp_right fun star => ⟨rfl, star⟩
  | char | start => cases legible
  | finish =>
    intro f same
    split at same <;> cases same
    exact .inl .here
  | @rule s r c found inside ih =>
    intro f same
    obtain ⟨g, rfl, rfl⟩ := Option.map_eq_some_iff.mp same
    have settled := begins _ rfl
    subst spaced
    simp only [Task.pattern, Pattern.legible, Bool.and_eq_true, bne_iff_ne] at legible
    cases spacing : r.spacing with
    | none =>
      obtain ⟨clear, slash⟩ := Rule.legible_pattern spacing legible.2
      rw [spacing] at ih
      refine (ih rfl (fun _ _ => settled) clear g rfl).imp_right fun at_slash => ⟨?_, at_slash.2⟩
      simp [Task.pattern, Pattern.endsInSlash, slash at_slash.1]
    | some inner =>
      left
      have found := Finds.rule inside
      cases inner with
      | spaced => cases r <;> cases spacing
      | joined =>
        obtain rfl : r = .string := by cases r <;> first | rfl | cases spacing
        obtain ⟨t, k, inside, comes, same⟩ := found.string
        have ends : g.cursor = c.after ('"' :: (t ++ ['"'])) := congrArg Found.cursor same
        have whole : c.rest = ('"' :: (t ++ ['"'])) ++ k := by simp [comes]
        change Outside c.rest g.cursor.rest
        rw [ends, Cursor.rest_after whole, whole]
        exact .behind (.mark (.quoted inside)) .here
      | atomic =>
        obtain ⟨t, k, comes, takes, same⟩ := found.token spacing
        have ends : g.cursor = c.after t := congrArg Found.cursor same
        change Outside c.rest g.cursor.rest
        rw [ends, Cursor.rest_after comes, comes]
        exact outside_plain (takes.plain (Rule.plain_pattern spacing legible.1))
  | @seq s first second c g found _ second_found ih ih' =>
    intro f same
    obtain ⟨g', rfl, rfl⟩ := Option.map_eq_some_iff.mp same
    subst spaced
    simp only [Task.pattern, Pattern.legible, Bool.and_eq_true, Bool.or_eq_true,
      Bool.not_eq_true'] at legible
    obtain ⟨⟨clear, clear'⟩, apart⟩ := legible
    have passed := passes_first (ih rfl (fun _ _ => begins _ rfl) clear g rfl) apart second_found
    have behind := ih' rfl (fun _ _ => Spacing.skip_settled rfl _) clear' g' rfl
    exact behind.imp_left fun more => passed.trans (g.cursor.outside_skip.trans more)
  | @first s first second c f _ ih =>
    intro f' same
    simp only [Task.pattern, Pattern.legible, Bool.and_eq_true] at legible
    refine (ih spaced (fun _ _ => begins _ rfl) legible.1 f' same).imp_right fun slash => ?_
    have ends : first.endsInSlash = true := slash.1
    exact ⟨by simp [Task.pattern, Pattern.endsInSlash, ends], slash.2⟩
  | @second s first second c found _ _ _ ih =>
    intro f' same
    simp only [Task.pattern, Pattern.legible, Bool.and_eq_true] at legible
    refine (ih spaced (fun _ _ => begins _ rfl) legible.2 f' same).imp_right fun slash => ?_
    have ends : second.endsInSlash = true := slash.1
    exact ⟨by simp [Task.pattern, Pattern.endsInSlash, ends], slash.2⟩
  | present _ ih => exact ih spaced (fun _ _ => begins _ rfl) legible
  | @many s body c g found _ _ ih ih' =>
    intro f same
    obtain ⟨g', rfl, rfl⟩ := Option.map_eq_some_iff.mp same
    have clear := legible
    simp only [Task.pattern, Pattern.legible, Bool.and_eq_true, Bool.not_eq_true'] at clear
    obtain ⟨clear, apart⟩ := clear
    have behind := ih' spaced (fun _ again => by cases again) legible g' rfl
    rcases ih spaced (fun _ _ => begins _ rfl) clear g rfl with passed | ⟨slash, -⟩
    · exact behind.imp_left passed.trans
    · rw [show body.endsInSlash = true from slash] at apart
      cases apart
  | @more s body c g found _ _ ih ih' =>
    intro f same
    obtain ⟨g', rfl, rfl⟩ := Option.map_eq_some_iff.mp same
    subst spaced
    have clear := legible
    simp only [Task.pattern, Pattern.legible, Bool.and_eq_true, Bool.not_eq_true'] at clear
    obtain ⟨clear, apart⟩ := clear
    have behind := ih' rfl (fun _ again => by cases again) legible g' rfl
    rcases ih rfl (fun _ _ => Spacing.skip_settled rfl _) clear g rfl with passed | ⟨slash, -⟩
    · exact behind.imp_left (c.outside_skip.trans passed).trans
    · rw [show body.endsInSlash = true from slash] at apart
      cases apart
  | absent | never | allowed | enough =>
    intro f same
    cases same
    exact .inl .here
  | stuck | refused =>
    intro f same
    cases same

def Pattern.items : Pattern := .many (.alt (.rule .functionDecl) (.rule .statement))

/-- What is found of a source, behind the layout at its beginning. -/
def Whole (source : List Char) (f : Found) : Prop :=
  Finds .spaced (.once (.seq .items (.rule .endOfInput))) (skipLayout (.start source)) (some f)

variable {source : List Char} {root : Node}

theorem Whole.tree (h : Whole source f) :
    ∃ attempts root, matchRule .program source = (attempts, some root) ∧
      root.children = f.nodes := by
  obtain ⟨found, finds, answer⟩ := matchRule_finds .program source
  have start : Finds .spaced (.once .start) (.start source) (some (.nothing (.start source))) :=
    .start
  cases finds.unique (finds_rule (r := .program) rfl (start.both h))
  exact ⟨_, _, Prod.ext rfl answer, rfl⟩

theorem whole_of_tree {attempts : Attempts}
    (h : matchRule .program source = (attempts, some root)) :
    ∃ f, Whole source f ∧ root.children = f.nodes := by
  obtain ⟨found, finds, answer⟩ := matchRule_finds .program source
  rw [h] at answer
  cases finds with
  | rule inside =>
    cases inside with
    | seq first second =>
      rename_i g found
      obtain rfl : g = .nothing (.start source) := by
        have start : Finds .spaced (.once .start) (.start source)
          (some (.nothing (.start source))) := .start
        exact Option.some.inj (first.unique start)
      cases found with
      | none => cases answer
      | some f =>
        cases answer
        exact ⟨f, second, rfl⟩
    | stuck => cases answer

/-- A source is accepted as a script if it is found as a whole and the script is built of that. -/
theorem parse_ok_iff {source : String} {script : Script} :
    parse source = .ok script ↔
      ∃ f, Whole source.toList f ∧ buildProgram f.nodes = .ok script := by
  constructor
  · intro h
    unfold parse at h
    dsimp only at h
    split at h
    · rename_i attempts root tree
      obtain ⟨f, whole, children⟩ := whole_of_tree tree
      exact ⟨f, whole, children ▸ h⟩
    · cases h
  · rintro ⟨f, whole, built⟩
    obtain ⟨attempts, root, tree, children⟩ := whole.tree
    unfold parse
    dsimp only
    rw [tree]
    dsimp only
    rw [children, built]

theorem parse_statement {source : String} {d : Cursor} {n : Node} {s : Stmt}
    (no_function : Finds .spaced (.once (.rule .functionDecl))
      (skipLayout (.start source.toList)) none)
    (found : Finds .spaced (.once (.rule .statement)) (skipLayout (.start source.toList))
      (some ⟨d, [n]⟩))
    (ends : d.rest = []) (rule : n.rule = .statement) (built : buildStmt n = .ok s) :
    parse source = .ok ⟨[], [s]⟩ := by
  have settled : d.Settled := Cursor.settled_of_head (by simp [ends])
  have no_more : Finds .spaced (.again (.alt (.rule .functionDecl) (.rule .statement))) d
      (some (.nothing d)) := by
    refine .enough ?_
    rw [Spacing.skip_of_settled _ settled]
    exact fails_of_begins (by decide) (by decide) _ settled (by simp [ends])
  have finish : Finds .spaced (.once .finish) (Spacing.spaced.skip d) (some (.nothing d)) := by
    have found := @Finds.finish .spaced d
    rw [Spacing.skip_of_settled _ settled]
    rwa [ends] at found
  have body : Finds .spaced (.once .items) (skipLayout (.start source.toList)) _ :=
    .many (.second no_function found) no_more
  refine parse_ok_iff.mpr ⟨_, body.both (finds_rule (r := .endOfInput) rfl finish), ?_⟩
  simp only [Found.before, Found.nothing, List.append_nil, List.singleton_append]
  rw [buildProgram, rule]
  dsimp only
  rw [built]
  rfl

theorem exists_parsed {source : String} {α : Type} {view : Script → α} {a : α}
    (h : (parse source).toOption.map view = some a) :
    ∃ script, parse source = .ok script ∧ view script = a := by
  cases parsed : parse source with
  | error e =>
    rw [parsed] at h
    cases h
  | ok script =>
    rw [parsed] at h
    exact ⟨script, rfl, Option.some.inj h⟩

/-- Nothing is left of a source, and every piece of it has been passed. -/
theorem Whole.passes (h : Whole source f) : f.cursor.rest = [] ∧ Outside source [] := by
  have ends : f.cursor.rest = [] := by
    have last := h
    unfold Whole at last
    generalize same : some f = found at last
    cases last with
    | seq _ last =>
      obtain ⟨g, rfl, rfl⟩ := Option.map_eq_some_iff.mp same.symm
      generalize same' : some g = found at last
      cases last with
      | rule inside =>
        obtain ⟨g', rfl, rfl⟩ := Option.map_eq_some_iff.mp same'.symm
        generalize same'' : some g' = found at inside
        cases inside with
        | finish =>
          split at same''
          · rename_i empty
            cases same''
            exact List.isEmpty_iff.mp empty
          · cases same''
    | stuck => cases same
  refine ⟨ends, ?_⟩
  have clear : (Pattern.seq .items (.rule .endOfInput)).legible := by decide
  rcases Finds.passes h rfl (fun _ _ => Cursor.skipLayout_settled _) clear f rfl with
    more | ⟨-, star⟩
  · rw [ends] at more
    exact (Cursor.outside_skip (.start source)).trans more
  · rw [ends] at star
    cases star

end Script
end FrameScript
