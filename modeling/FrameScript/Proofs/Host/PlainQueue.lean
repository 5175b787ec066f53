import FrameScript.Proofs.Host.Queues
import Mathlib.Data.List.Sort

/-!
# Queues as plain lists

A queue numbers its entries and stops at the first one that is not due. A plain list that is
sorted stably by wake values whenever something is filed does without both, and looks at each
entry. They give the same answers to all operations, unless a wake value is a negative NaN.
-/

namespace FrameScript

/-- What can be done to a queue. -/
inductive QueueOp where
  | push (wake : Number) (id : ContinuationId)
  | peek
  | popDue (now : Number)
  | takeDue (now : Number) (policy : DrainPolicy)
  deriving DecidableEq

inductive QueueAnswer where
  | filed
  | first (entry : Option (Number × ContinuationId))
  | popped (id : Option ContinuationId)
  | taken (ids : List ContinuationId)
  deriving DecidableEq

/-- No wake value is a negative NaN. -/
def QueueOp.Sound : QueueOp → Prop
  | push wake _ => wake ≠ .nan true
  | _ => True

instance : DecidablePred QueueOp.Sound
  | .push wake _ => inferInstanceAs (Decidable (wake ≠ .nan true))
  | .peek | .popDue _ | .takeDue _ _ => inferInstanceAs (Decidable True)

def QueueOp.filing? : QueueOp → Option (Number × ContinuationId)
  | push wake id => some (wake, id)
  | _ => none

/-- What is known of an entry outside of its queue. -/
def QueueEntry.shown (e : QueueEntry) : Number × ContinuationId := (e.wake, e.id)

namespace SuspensionQueue

def perform (q : SuspensionQueue) : QueueOp → QueueAnswer × SuspensionQueue
  | .push wake id => (.filed, q.push wake id)
  | .peek => (.first (q.peek?.map QueueEntry.shown), q)
  | .popDue now => (.popped (q.popDue now).1, (q.popDue now).2)
  | .takeDue now policy => (.taken (q.takeDue now policy).1, (q.takeDue now policy).2)

def performAll (q : SuspensionQueue) : List QueueOp → List QueueAnswer × SuspensionQueue
  | [] => ([], q)
  | op :: rest =>
    let others := (q.perform op).2.performAll rest
    ((q.perform op).1 :: others.1, others.2)

end SuspensionQueue

/-- What is filed, with its wake values, in the order of release. -/
abbrev PlainQueue := List (Number × ContinuationId)

namespace PlainQueue

/-- The order by wake values. -/
def earlier (a b : Number × ContinuationId) : Bool := (a.1.totalCompare b.1).isLE

def isDue (now : Number) (a : Number × ContinuationId) : Bool := a.1.atMost now

/-- What an operation releases: the entries that are due, all of them or the first. -/
def released (l : PlainQueue) : QueueOp → List (Number × ContinuationId)
  | .popDue now | .takeDue now .onePerTick => (l.filter (isDue now)).take 1
  | .takeDue now .allDue => l.filter (isDue now)
  | _ => []

def next (l : PlainQueue) : QueueOp → PlainQueue
  | .push wake id => (l ++ [(wake, id)]).mergeSort earlier
  | .peek => l
  | .popDue now | .takeDue now .onePerTick => l.eraseP (isDue now)
  | .takeDue now .allDue => l.filter fun a => !isDue now a

def answer (l : PlainQueue) : QueueOp → QueueAnswer
  | .push _ _ => .filed
  | .peek => .first l.head?
  | .popDue now => .popped ((l.released (.popDue now)).head?.map (·.2))
  | .takeDue now policy => .taken ((l.released (.takeDue now policy)).map (·.2))

def answers (l : PlainQueue) : List QueueOp → List QueueAnswer
  | [] => []
  | op :: rest => l.answer op :: answers (l.next op) rest

def after (l : PlainQueue) : List QueueOp → PlainQueue
  | [] => l
  | op :: rest => after (l.next op) rest

/-- What operations release, in order. -/
def releasedAll (l : PlainQueue) : List QueueOp → List (Number × ContinuationId)
  | [] => []
  | op :: rest => l.released op ++ releasedAll (l.next op) rest

variable {l : PlainQueue}

theorem eq_filter_not {p : Number × ContinuationId → Bool} {rest : PlainQueue}
    (front : l.filter p ++ rest = l) : rest = l.filter fun a => !p a := by
  have none_left : rest.filter p = [] := by
    have again := congrArg (List.filter p) front
    simpa [List.filter_filter] using again
  have all : rest.filter (fun a => !p a) = rest := by
    rw [List.filter_eq_self]
    intro a mem
    simpa using List.filter_eq_nil_iff.mp none_left a mem
  calc rest = rest.filter fun a => !p a := all.symm
    _ = (l.filter p ++ rest).filter fun a => !p a := by simp [List.filter_filter]
    _ = l.filter fun a => !p a := by rw [front]

theorem eq_eraseP {p : Number × ContinuationId → Bool} {rest : PlainQueue}
    (front : (l.filter p).take 1 ++ rest = l) : rest = l.eraseP p := by
  cases matching : l.filter p with
  | nil =>
    rw [matching] at front
    rw [List.eraseP_of_forall_not (List.filter_eq_nil_iff.mp matching)]
    exact front
  | cons a others =>
    rw [matching] at front
    have first : p a = true :=
      List.of_mem_filter (matching ▸ List.mem_cons_self : a ∈ l.filter p)
    rw [← front]
    exact (List.eraseP_cons_of_pos first).symm

theorem take_filter_append_eraseP (l : PlainQueue) (p : Number × ContinuationId → Bool) :
    ((l.filter p).take 1 ++ l.eraseP p).Perm l := by
  induction l with
  | nil => exact .refl _
  | cons a rest ih =>
    cases matching : p a with
    | true => simp [matching]
    | false =>
      simp only [List.filter_cons, matching, List.eraseP_cons, Bool.false_eq_true, if_false,
        cond_false]
      exact List.perm_middle.trans (ih.cons a)

theorem released_append_next (l : PlainQueue) (op : QueueOp) :
    (l.released op ++ l.next op).Perm (l ++ op.filing?.toList) := by
  have one (now : Number) :
      ((l.filter (isDue now)).take 1 ++ l.eraseP (isDue now)).Perm (l ++ []) := by
    rw [List.append_nil]
    exact take_filter_append_eraseP l _
  cases op with
  | push wake id => exact List.mergeSort_perm _ _
  | peek => simp [released, next, QueueOp.filing?]
  | popDue now => exact one now
  | takeDue now policy =>
    cases policy with
    | onePerTick => exact one now
    | allDue => simpa [released, next, QueueOp.filing?] using List.filter_append_perm (isDue now) l

/-- All that was filed has been released or is still there. -/
theorem releasedAll_append_after (l : PlainQueue) (ops : List QueueOp) :
    (l.releasedAll ops ++ l.after ops).Perm (l ++ ops.filterMap QueueOp.filing?) := by
  induction ops generalizing l with
  | nil => exact .of_eq (List.append_nil l).symm
  | cons op rest ih =>
    have filings : (op :: rest).filterMap QueueOp.filing? =
        op.filing?.toList ++ rest.filterMap QueueOp.filing? := by
      cases op <;> rfl
    rw [releasedAll, after, filings, List.append_assoc, ← List.append_assoc l]
    apply ((ih (l.next op)).append_left _).trans
    rw [← List.append_assoc]
    exact (released_append_next l op).append_right _

/-- A NaN is never due. -/
theorem isNaN_of_mem_releasedAll {l : PlainQueue} {ops : List QueueOp}
    {a : Number × ContinuationId} (mem : a ∈ l.releasedAll ops) : a.1.isNaN = false := by
  have due {l : PlainQueue} {now : Number} (mem : a ∈ l.filter (isDue now)) :
      a.1.isNaN = false := ((Number.atMost_iff _ _).mp (List.mem_filter.mp mem).2).1
  induction ops generalizing l with
  | nil => cases mem
  | cons op rest ih =>
    rcases List.mem_append.mp mem with mem | mem
    · cases op with
      | push wake id => cases mem
      | peek => cases mem
      | popDue now => exact due (List.mem_of_mem_take mem)
      | takeDue now policy =>
        cases policy with
        | onePerTick => exact due (List.mem_of_mem_take mem)
        | allDue => exact due mem
    · exact ih mem

end PlainQueue

def QueueEntry.earlier (a b : QueueEntry) : Bool := PlainQueue.earlier a.shown b.shown

namespace QueueEntry

theorem earlier_iff {a b : QueueEntry} : a.earlier b = true ↔ a.wake.place ≤ b.wake.place := by
  rw [earlier, PlainQueue.earlier, Number.totalCompare_eq, Int.isLE_compare]
  rfl

/-- Sorting is stable: entries that are filed one after the other are released so if they are
due at once. -/
theorem mergeSort_before {l : List QueueEntry}
    (filed : l.Pairwise fun a b => a.wake.place = b.wake.place → a.filed < b.filed) :
    (l.mergeSort earlier).Pairwise Before := by
  have trans (a b c : QueueEntry) (h : a.earlier b = true) (k : b.earlier c = true) :
      a.earlier c = true := by
    rw [earlier_iff] at h k ⊢
    exact Int.le_trans h k
  have total (a b : QueueEntry) : (a.earlier b || b.earlier a) = true := by
    rw [Bool.or_eq_true, earlier_iff, earlier_iff]
    exact Int.le_total _ _
  -- Entries that are due at once come out of the sorting as they went in.
  have ties (place : Int) : (l.mergeSort earlier).filter (·.wake.place = place) =
      l.filter (·.wake.place = place) := by
    have equal : (l.filter (·.wake.place = place)).Pairwise fun a b => a.earlier b = true := by
      apply List.Pairwise.imp_of_mem (R := fun _ _ => True)
      · intro a b a_mem b_mem _
        have a_place : a.wake.place = place := by simpa using List.of_mem_filter a_mem
        have b_place : b.wake.place = place := by simpa using List.of_mem_filter b_mem
        rw [earlier_iff, a_place, b_place]
      · exact List.pairwise_of_forall fun _ _ => trivial
    have kept := (List.sublist_mergeSort trans total equal List.filter_sublist).filter
      (·.wake.place = place)
    simp only [List.filter_filter, Bool.and_self] at kept
    refine (kept.eq_of_length ?_).symm
    exact ((List.mergeSort_perm l earlier).filter _).length_eq.symm
  rw [List.pairwise_iff_forall_sublist]
  intro a b pair
  have le : a.wake.place ≤ b.wake.place := by
    rw [← earlier_iff]
    exact List.pairwise_iff_forall_sublist.mp (List.pairwise_mergeSort trans total l) pair
  rw [before_iff]
  rcases Int.lt_or_eq_of_le le with less | tie
  · exact .inl less
  · have both := pair.filter (·.wake.place = b.wake.place)
    rw [ties] at both
    simp only [List.filter_cons, tie, decide_true, if_true, List.filter_nil] at both
    have in_order := both.trans List.filter_sublist
    exact .inr ⟨tie, List.pairwise_iff_forall_sublist.mp filed in_order tie⟩

end QueueEntry

namespace SuspensionQueue

variable {q : SuspensionQueue}

/-- What is filed last comes behind what is due at once. -/
theorem insertEntry_eq_mergeSort {e : QueueEntry} {l : List QueueEntry}
    (sorted : l.Pairwise QueueEntry.Before) (last : ∀ d ∈ l, d.filed < e.filed) :
    insertEntry e l = (l ++ [e]).mergeSort QueueEntry.earlier := by
  have inserted : (insertEntry e l).Pairwise QueueEntry.Before :=
    sorted_insertEntry sorted fun d mem => (Nat.ne_of_lt (last d mem)).symm
  have merged : ((l ++ [e]).mergeSort QueueEntry.earlier).Pairwise QueueEntry.Before := by
    apply QueueEntry.mergeSort_before
    refine List.pairwise_append.mpr ⟨?_, List.pairwise_singleton _ _, ?_⟩
    · refine sorted.imp fun before tie => ?_
      rw [QueueEntry.before_iff] at before
      omega
    · intro d mem other new _
      rw [List.mem_singleton.mp new]
      exact last d mem
  refine List.Perm.eq_of_pairwise (fun a b _ _ h k => ?_) inserted merged ?_
  · rw [QueueEntry.before_iff] at h k
    omega
  · have appended : (insertEntry e l).Perm (l ++ [e]) :=
      (insertEntry_perm e l).trans (List.perm_append_singleton e l).symm
    exact appended.trans (List.mergeSort_perm _ _).symm

theorem popDue_eq (q : SuspensionQueue) (now : Number) :
    q.popDue now = ((q.takeDue now .onePerTick).1.head?, (q.takeDue now .onePerTick).2) := by
  obtain ⟨mode, entries, count⟩ := q
  cases entries with
  | nil => rfl
  | cons e rest =>
    cases late : isDue now e with
    | true => simp [popDue, SuspensionQueue.takeDue, late]
    | false => simp [popDue, SuspensionQueue.takeDue, late]

/-- A queue that shows what a plain list holds. -/
structure Shows (q : SuspensionQueue) (l : PlainQueue) : Prop where
  ordered : q.Ordered
  sound : ∀ e ∈ q.entries, e.wake ≠ .nan true
  entries : q.entries.map QueueEntry.shown = l

namespace Shows

variable {l : PlainQueue}

theorem new (mode : WakeMode) : (SuspensionQueue.new mode).Shows [] :=
  ⟨new_ordered mode, by simp [SuspensionQueue.new], rfl⟩

theorem push (h : q.Shows l) {wake : Number} (sound : wake ≠ .nan true) (id : ContinuationId) :
    (q.push wake id).Shows (l.next (.push wake id)) where
  ordered := h.ordered.push wake id
  sound := by
    intro e mem
    rcases mem_push.mp mem with rfl | mem
    · exact sound
    · exact h.sound e mem
  entries := by
    rw [SuspensionQueue.push, insertEntry_eq_mergeSort h.ordered.sorted h.ordered.counted]
    have sorts (entries : List QueueEntry) : (entries.mergeSort QueueEntry.earlier).map
        QueueEntry.shown = (entries.map QueueEntry.shown).mergeSort PlainQueue.earlier :=
      List.map_mergeSort fun _ _ _ _ => rfl
    rw [sorts, List.map_append, h.entries]
    rfl

theorem due (h : q.Shows l) (now : Number) :
    (q.due now).map QueueEntry.shown = l.filter (PlainQueue.isDue now) := by
  rw [← h.entries, List.filter_map]
  rfl

theorem keep (h : q.Shows l) {front rest : List QueueEntry} (split : q.entries = front ++ rest)
    {kept : PlainQueue} (keeps : rest.map QueueEntry.shown = kept) :
    { q with entries := rest }.Shows kept where
  ordered := by
    have sublist : rest.Sublist q.entries := split ▸ List.sublist_append_right _ _
    exact ⟨h.ordered.sorted.sublist sublist, fun e mem => h.ordered.counted e (sublist.subset mem)⟩
  sound e mem := h.sound e (split ▸ List.mem_append_right _ mem)
  entries := keeps

theorem takeDue (h : q.Shows l) (now : Number) (policy : DrainPolicy) :
    (q.takeDue now policy).1 = (l.released (.takeDue now policy)).map (·.2) ∧
      (q.takeDue now policy).2.Shows (l.next (.takeDue now policy)) := by
  obtain ⟨rest, split, takes⟩ := h.ordered.takeDue_eq h.sound now policy
  have shown : (q.released now policy).map QueueEntry.shown ++ rest.map QueueEntry.shown = l := by
    rw [← List.map_append, ← split, h.entries]
  have released : (q.released now policy).map QueueEntry.shown =
      l.released (.takeDue now policy) := by
    cases policy with
    | allDue => exact h.due now
    | onePerTick => rw [SuspensionQueue.released, List.map_take, h.due]; rfl
  rw [released] at shown
  have keeps : rest.map QueueEntry.shown = l.next (.takeDue now policy) := by
    cases policy with
    | allDue => exact PlainQueue.eq_filter_not shown
    | onePerTick => exact PlainQueue.eq_eraseP shown
  rw [takes]
  refine ⟨?_, h.keep split keeps⟩
  rw [← released, List.map_map]
  rfl

/-- An operation on a queue is one on the list. -/
theorem perform (h : q.Shows l) {op : QueueOp} (sound : op.Sound) :
    (q.perform op).1 = l.answer op ∧ (q.perform op).2.Shows (l.next op) := by
  cases op with
  | push wake id => exact ⟨rfl, h.push sound id⟩
  | peek =>
    refine ⟨?_, h⟩
    rw [SuspensionQueue.perform, PlainQueue.answer, ← h.entries, List.head?_map]
    rfl
  | popDue now =>
    obtain ⟨ids, shows⟩ := h.takeDue now .onePerTick
    rw [SuspensionQueue.perform, popDue_eq]
    exact ⟨by rw [ids, List.head?_map]; rfl, shows⟩
  | takeDue now policy =>
    obtain ⟨ids, shows⟩ := h.takeDue now policy
    exact ⟨congrArg QueueAnswer.taken ids, shows⟩

theorem performAll (h : q.Shows l) {ops : List QueueOp} (sound : ∀ op ∈ ops, op.Sound) :
    (q.performAll ops).1 = l.answers ops ∧ (q.performAll ops).2.Shows (l.after ops) := by
  induction ops generalizing q l with
  | nil => exact ⟨rfl, h⟩
  | cons op rest ih =>
    obtain ⟨first, others⟩ := List.forall_mem_cons.mp sound
    obtain ⟨answer, shows⟩ := h.perform first
    obtain ⟨answers, last⟩ := ih shows others
    refine ⟨?_, last⟩
    rw [SuspensionQueue.performAll, PlainQueue.answers, answer, answers]

end Shows

/-- Whatever is filed and released, a queue answers like a plain list that is sorted stably by wake
values: it releases exactly what is due, or the first of that. Nothing is lost or doubled, and a
NaN is never released. -/
theorem answers_as_sorted_list (mode : WakeMode) {ops : List QueueOp}
    (sound : ∀ op ∈ ops, op.Sound) :
    ((new mode).performAll ops).1 = PlainQueue.answers [] ops ∧
    ((new mode).performAll ops).2.entries.map QueueEntry.shown = PlainQueue.after [] ops ∧
    (PlainQueue.releasedAll [] ops ++ PlainQueue.after [] ops).Perm
      (ops.filterMap QueueOp.filing?) ∧
    ∀ a ∈ PlainQueue.releasedAll [] ops, a.1.isNaN = false := by
  obtain ⟨answers, shows⟩ := (Shows.new mode).performAll sound
  refine ⟨answers, shows.entries, PlainQueue.releasedAll_append_after [] ops, ?_⟩
  intro a mem
  exact PlainQueue.isNaN_of_mem_releasedAll mem

/-- Both zeros, both infinities and a NaN are filed. -/
def boundaryOps : List QueueOp :=
  [.push (.zero false) ⟨1⟩, .push (.zero true) ⟨2⟩, .push (.nan false) ⟨3⟩,
    .push (.infinity false) ⟨4⟩, .push (.infinity true) ⟨5⟩, .push (.zero false) ⟨6⟩,
    .takeDue (.zero true) .onePerTick, .takeDue (.zero true) .allDue, .peek,
    .popDue (.infinity false), .takeDue (.nan false) .allDue]

/-- A reading of negative zero releases both zeros, the negative one first, and the NaN stays. -/
theorem answers_as_sorted_list_boundary :
    ((new .real).performAll boundaryOps).1 = [.filed, .filed, .filed, .filed, .filed, .filed,
      .taken [⟨5⟩], .taken [⟨2⟩, ⟨1⟩, ⟨6⟩], .first (some (.infinity false, ⟨4⟩)),
      .popped (some ⟨4⟩), .taken []] ∧
    (∀ op ∈ boundaryOps, op.Sound) ∧
    ((new .real).performAll boundaryOps).1 = PlainQueue.answers [] boundaryOps := by
  have sound : ∀ op ∈ boundaryOps, op.Sound := by decide
  have answers : ((new .real).performAll boundaryOps).1 = [.filed, .filed, .filed, .filed, .filed,
      .filed, .taken [⟨5⟩], .taken [⟨2⟩, ⟨1⟩, ⟨6⟩], .first (some (.infinity false, ⟨4⟩)),
      .popped (some ⟨4⟩), .taken []] := by decide +kernel
  obtain ⟨same, -⟩ := answers_as_sorted_list .real sound
  exact ⟨answers, sound, same⟩

end SuspensionQueue

end FrameScript
