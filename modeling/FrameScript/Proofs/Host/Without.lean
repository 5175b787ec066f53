import FrameScript.Proofs.Host.Renaming
import FrameScript.Proofs.Host.Ticks

/-!
# A host without one of its continuations

Two hosts that differ by a continuation `b`, which only one of them has started: the other one has
the same continuations in the same order, waiting for the same, and its heap stands in the heap
that `b` has added to. Driving `b` keeps this if it makes no writes, and driving another
continuation in both hosts keeps it too.
-/

namespace FrameScript

variable {e : Renaming} {b : ContinuationId}

namespace ContinuationId

theorem past_ne (id b : ContinuationId) : id.past b ≠ b := by
  intro same
  unfold past at same
  split at same
  · subst same
    omega
  · have number := congrArg number same
    simp only at number
    omega

theorem past_injective (b : ContinuationId) : Function.Injective fun id => past id b := by
  intro id other same
  obtain ⟨n⟩ := id
  obtain ⟨k⟩ := other
  simp only [past] at same
  split at same <;> split at same <;> simp only [mk.injEq] at same ⊢ <;> omega

theorem past_of_lt {id b : ContinuationId} (earlier : id.number < b.number) : id.past b = id :=
  if_pos earlier

end ContinuationId

def QueueEntry.Matches (b : ContinuationId) (x y : QueueEntry) : Prop :=
  y.wake = x.wake ∧ y.id = x.id.past b

/-- An entry that is filed later comes first only if its wake value is less. -/
theorem QueueEntry.compare_isLT {x y : QueueEntry} (later : y.filed < x.filed) :
    (x.compare y).isLT = (x.wake.totalCompare y.wake).isLT := by
  have order : Ord.compare x.filed y.filed = .gt := Nat.compare_eq_gt.mpr later
  rw [compare, order]
  cases x.wake.totalCompare y.wake <;> rfl

namespace SuspensionQueue

variable {x y : QueueEntry} {l l' : List QueueEntry} {keep : QueueEntry → Bool}

theorem insertEntry_matches (all : List.Forall₂ (QueueEntry.Matches b) l l')
    (same : x.Matches b y) (last : ∀ z ∈ l, z.filed < x.filed)
    (last' : ∀ z ∈ l', z.filed < y.filed) :
    List.Forall₂ (QueueEntry.Matches b) (insertEntry x l) (insertEntry y l') := by
  induction all with
  | nil => exact .cons same .nil
  | @cons first first' rest rest' first_same rest_same ih =>
    obtain ⟨last_first, last_rest⟩ := List.forall_mem_cons.mp last
    obtain ⟨last_first', last_rest'⟩ := List.forall_mem_cons.mp last'
    have order : (y.compare first').isLT = (x.compare first).isLT := by
      rw [QueueEntry.compare_isLT last_first', QueueEntry.compare_isLT last_first, same.1,
        first_same.1]
    rw [insertEntry, insertEntry, order]
    split
    · exact .cons same (.cons first_same rest_same)
    · exact .cons first_same (ih last_rest last_rest')

theorem insertEntry_of_before (before : ∀ z ∈ l, x.Before z) : insertEntry x l = x :: l := by
  cases l with
  | nil => rfl
  | cons first rest =>
    have less : (x.compare first).isLT = true := by
      rw [show x.compare first = .lt from before first List.mem_cons_self]
      rfl
    rw [insertEntry, if_pos less]

theorem filter_insertEntry_of_pos (sorted : l.Pairwise QueueEntry.Before) (kept : keep x = true) :
    (insertEntry x l).filter keep = insertEntry x (l.filter keep) := by
  induction l with
  | nil => simp [insertEntry, kept]
  | cons first rest ih =>
    obtain ⟨before, sorted'⟩ := List.pairwise_cons.mp sorted
    by_cases earlier : (x.compare first).isLT = true
    · have first_later : x.Before first := by simpa [QueueEntry.Before] using earlier
      rw [insertEntry, if_pos earlier, List.filter_cons_of_pos kept]
      refine (insertEntry_of_before fun z mem => ?_).symm
      rcases List.mem_cons.mp (List.mem_of_mem_filter mem) with rfl | mem
      · exact first_later
      · exact first_later.trans (before z mem)
    · rw [insertEntry, if_neg earlier]
      by_cases keep_first : keep first = true
      · rw [List.filter_cons_of_pos keep_first, List.filter_cons_of_pos keep_first, insertEntry,
          if_neg earlier, ih sorted']
      · rw [List.filter_cons_of_neg keep_first, List.filter_cons_of_neg keep_first, ih sorted']

theorem filter_insertEntry_of_neg (dropped : ¬ keep x = true) :
    (insertEntry x l).filter keep = l.filter keep := by
  induction l with
  | nil => simp [insertEntry, dropped]
  | cons first rest ih =>
    rw [insertEntry]
    split
    · exact List.filter_cons_of_neg dropped
    · rw [List.filter_cons, List.filter_cons, ih]

/-- Entries whose wake values are no negative NaN stand in no other's way. -/
theorem due_filter (now : Number) (sorted : l.Pairwise QueueEntry.Before)
    (sound : ∀ z ∈ l, ¬ keep z = true → z.wake ≠ .nan true) :
    (l.takeWhile (isDue now)).filter keep = (l.filter keep).takeWhile (isDue now) ∧
      (l.dropWhile (isDue now)).filter keep = (l.filter keep).dropWhile (isDue now) := by
  induction l with
  | nil => exact ⟨rfl, rfl⟩
  | cons first rest ih =>
    obtain ⟨before, sorted'⟩ := List.pairwise_cons.mp sorted
    obtain ⟨sound_first, sound_rest⟩ := List.forall_mem_cons.mp sound
    obtain ⟨taken, left⟩ := ih sorted' sound_rest
    by_cases due : isDue now first = true
    · rw [List.takeWhile_cons_of_pos due, List.dropWhile_cons_of_pos due]
      by_cases kept : keep first = true
      · rw [List.filter_cons_of_pos kept, List.filter_cons_of_pos kept,
          List.takeWhile_cons_of_pos due, List.dropWhile_cons_of_pos due, taken]
        exact ⟨rfl, left⟩
      · rw [List.filter_cons_of_neg kept, List.filter_cons_of_neg kept]
        exact ⟨taken, left⟩
    · rw [List.takeWhile_cons_of_neg due, List.dropWhile_cons_of_neg due]
      by_cases kept : keep first = true
      · rw [List.filter_cons_of_pos kept, List.takeWhile_cons_of_neg due,
          List.dropWhile_cons_of_neg due]
        exact ⟨rfl, rfl⟩
      · rw [List.filter_cons_of_neg kept]
        have early (z : QueueEntry) (mem : z ∈ rest.filter keep) : ¬ isDue now z = true :=
          fun late => due ((before z (List.mem_of_mem_filter mem)).isDue (sound_first kept) late)
        generalize rest.filter keep = others at early
        cases others with
        | nil => exact ⟨rfl, rfl⟩
        | cons z more =>
          have early_z := early z List.mem_cons_self
          rw [List.takeWhile_cons_of_neg early_z, List.dropWhile_cons_of_neg early_z]
          exact ⟨rfl, rfl⟩

theorem due_matches (now : Number) (all : List.Forall₂ (QueueEntry.Matches b) l l') :
    List.Forall₂ (QueueEntry.Matches b) (l.takeWhile (isDue now)) (l'.takeWhile (isDue now)) ∧
      List.Forall₂ (QueueEntry.Matches b) (l.dropWhile (isDue now))
        (l'.dropWhile (isDue now)) := by
  induction all with
  | nil => exact ⟨.nil, .nil⟩
  | @cons first first' rest rest' first_same rest_same ih =>
    have same : isDue now first' = isDue now first := by rw [isDue, isDue, first_same.1]
    by_cases due : isDue now first = true
    · have due' := same.trans due
      rw [List.takeWhile_cons_of_pos due, List.dropWhile_cons_of_pos due,
        List.takeWhile_cons_of_pos due', List.dropWhile_cons_of_pos due']
      exact ⟨.cons first_same ih.1, ih.2⟩
    · have due' : ¬ isDue now first' = true := same ▸ due
      rw [List.takeWhile_cons_of_neg due, List.dropWhile_cons_of_neg due,
        List.takeWhile_cons_of_neg due', List.dropWhile_cons_of_neg due']
      exact ⟨.nil, .cons first_same rest_same⟩

theorem ids_of_matches (all : List.Forall₂ (QueueEntry.Matches b) l l') :
    l'.map (·.id) = (l.map (·.id)).map (·.past b) := by
  induction all with
  | nil => rfl
  | cons first _ ih => rw [List.map_cons, List.map_cons, List.map_cons, ih, first.2]

theorem takeDue_allDue (q : SuspensionQueue) (now : Number) : q.takeDue now .allDue =
    ((q.entries.takeWhile (isDue now)).map (·.id),
      { q with entries := q.entries.dropWhile (isDue now) }) := by
  have split : q.entries.takeWhile (isDue now) ++ q.entries.dropWhile (isDue now) = q.entries :=
    List.takeWhile_append_dropWhile
  unfold takeDue
  generalize q.entries.takeWhile (isDue now) = taken at split ⊢
  generalize q.entries.dropWhile (isDue now) = left at split ⊢
  rw [← split]
  simp

/-- A queue in which the same wait, in the same order, but for one continuation. -/
structure Without (b : ContinuationId) (q larger : SuspensionQueue) : Prop where
  entries : List.Forall₂ (QueueEntry.Matches b) q.entries
    (larger.entries.filter fun x => x.id ≠ b)
  ordered : q.Ordered
  ordered' : larger.Ordered
  sound : ∀ x ∈ larger.entries, x.id = b → x.wake ≠ .nan true

namespace Without

variable {q larger : SuspensionQueue}

theorem push (w : q.Without b larger) (wake : Number) (id : ContinuationId) :
    (q.push wake id).Without b (larger.push wake (id.past b)) where
  entries := by
    have kept : decide (id.past b ≠ b) = true := decide_eq_true (id.past_ne b)
    rw [SuspensionQueue.push, SuspensionQueue.push,
      filter_insertEntry_of_pos w.ordered'.sorted kept]
    exact insertEntry_matches w.entries ⟨rfl, rfl⟩ w.ordered.counted
      fun z mem => w.ordered'.counted z (List.mem_of_mem_filter mem)
  ordered := w.ordered.push wake id
  ordered' := w.ordered'.push wake _
  sound x mem own := by
    rcases mem_push.mp mem with rfl | mem
    · exact absurd own (id.past_ne b)
    · exact w.sound x mem own

theorem push_own (w : q.Without b larger) {wake : Number} (sound : wake ≠ .nan true) :
    q.Without b (larger.push wake b) where
  entries := by
    rw [SuspensionQueue.push, filter_insertEntry_of_neg (by simp)]
    exact w.entries
  ordered := w.ordered
  ordered' := w.ordered'.push wake b
  sound x mem own := by
    rcases mem_push.mp mem with rfl | mem
    · exact sound
    · exact w.sound x mem own

/-- Both queues release the same, but for `b`. -/
theorem takeDue (w : q.Without b larger) (now : Number) :
    (larger.takeDue now .allDue).1.filter (· ≠ b) =
        (q.takeDue now .allDue).1.map (·.past b) ∧
      (q.takeDue now .allDue).2.Without b (larger.takeDue now .allDue).2 := by
  have sound (z : QueueEntry) (mem : z ∈ larger.entries) (own : ¬ decide (z.id ≠ b) = true) :
      z.wake ≠ .nan true := w.sound z mem (by simpa using own)
  obtain ⟨taken, left⟩ := due_filter now w.ordered'.sorted sound
  obtain ⟨taken_same, left_same⟩ := due_matches now w.entries
  have ordered := w.ordered.takeDue now .allDue
  have ordered' := w.ordered'.takeDue now .allDue
  rw [takeDue_allDue] at ordered ordered'
  rw [takeDue_allDue, takeDue_allDue]
  constructor
  · rw [List.filter_map]
    exact (congrArg _ taken).trans (ids_of_matches taken_same)
  · refine ⟨?_, ordered, ordered', fun x mem => ?_⟩
    · rw [left]
      exact left_same
    · exact w.sound x ((List.dropWhile_sublist _).subset mem)

end Without
end SuspensionQueue

/-- A registry in which the same are registered, but for one. -/
structure Registry.Without (e : Renaming) (b : ContinuationId) (r larger : Registry) : Prop where
  entries : larger.entries.filter (fun c => c.id ≠ b) = r.entries.map (Continuation.rename e b)
  lastNumber : larger.lastNumber = r.lastNumber + 1
  started : b.number ≤ larger.lastNumber

namespace Registry.Without

variable {r larger : Registry}

theorem get? (w : r.Without e b larger) (id : ContinuationId) :
    larger.get? (id.past b) = (r.get? id).map (Continuation.rename e b) := by
  have others : larger.get? (id.past b) =
      (larger.entries.filter fun c => c.id ≠ b).find? fun c => c.id = id.past b := by
    rw [List.find?_filter, Registry.get?]
    congr 1
    funext c
    by_cases same : c.id = id.past b
    · simp [same, id.past_ne b]
    · simp [same]
  have same (c : Continuation) :
      decide ((c.rename e b).id = id.past b) = decide (c.id = id) :=
    decide_eq_decide.mpr (ContinuationId.past_injective b).eq_iff
  rw [others, w.entries, List.find?_map, Registry.get?]
  simp only [Function.comp_def, same]

theorem nextId (w : r.Without e b larger) : larger.nextId = r.nextId.past b := by
  have started := w.started
  rw [w.lastNumber] at started
  have later : ¬ r.nextId.number < b.number := by
    simp only [Registry.nextId]
    omega
  rw [ContinuationId.past, if_neg later, Registry.nextId, w.lastNumber]
  rfl

theorem start (w : r.Without e b larger) (entry : String) (args : List Value) (limit : Nat) :
    (r.start entry args limit).Without e b
      (larger.start entry (args.map (Value.rename e)) limit) where
  entries := by
    have kept : [Continuation.new larger.nextId entry (args.map (Value.rename e)) limit].filter
        (fun c => c.id ≠ b) =
        [Continuation.new larger.nextId entry (args.map (Value.rename e)) limit] := by
      apply List.filter_eq_self.mpr
      intro c mem
      rw [List.mem_singleton.mp mem]
      exact decide_eq_true (w.nextId ▸ r.nextId.past_ne b)
    rw [Registry.start, Registry.start, List.filter_append, w.entries, List.map_append, kept,
      w.nextId]
    simp [Continuation.new, Continuation.rename, Pending.rename, Machine.rename_new]
  lastNumber := congrArg (· + 1) w.lastNumber
  started := Nat.le_succ_of_le w.started

theorem update (w : r.Without e b larger) (c : Continuation) :
    (r.update c).Without e b (larger.update (c.rename e b)) where
  entries := by
    have kept (d : Continuation) : decide ((if d.id = (c.rename e b).id then c.rename e b
        else d).id ≠ b) = decide (d.id ≠ b) := by
      split
      · rename_i same
        rw [same]
      · rfl
    have filtered : (larger.update (c.rename e b)).entries.filter (fun d => d.id ≠ b) =
        (larger.entries.filter fun d => d.id ≠ b).map
          fun d => if d.id = (c.rename e b).id then c.rename e b else d := by
      rw [Registry.update, List.filter_map]
      simp only [Function.comp_def, kept]
    rw [filtered, w.entries, Registry.update, List.map_map, List.map_map]
    refine List.map_congr_left fun d _ => ?_
    have same : (d.rename e b).id = (c.rename e b).id ↔ d.id = c.id :=
      (ContinuationId.past_injective b).eq_iff
    simp only [Function.comp_apply, same]
    split <;> rfl
  lastNumber := w.lastNumber
  started := w.started

theorem update_own (w : r.Without e b larger) {c : Continuation} (own : c.id = b) :
    r.Without e b (larger.update c) where
  entries := by
    rw [← w.entries, Registry.update]
    generalize larger.entries = entries
    induction entries with
    | nil => rfl
    | cons d rest ih =>
      rw [List.map_cons, List.filter_cons, List.filter_cons, ih]
      by_cases same : d.id = b
      · simp [own, same]
      · simp [own, same]
  lastNumber := w.lastNumber
  started := w.started

theorem release (w : r.Without e b larger) (id : ContinuationId) :
    (r.release id).Without e b (larger.release (id.past b)) where
  entries := by
    have same (c : Continuation) :
        decide ((c.rename e b).id ≠ id.past b) = decide (c.id ≠ id) :=
      decide_eq_decide.mpr (ContinuationId.past_injective b).ne_iff
    rw [Registry.release, Registry.release, List.filter_comm, w.entries, List.filter_map]
    simp only [Function.comp_def, same]
  lastNumber := w.lastNumber
  started := w.started

theorem release_own (w : r.Without e b larger) : r.Without e b (larger.release b) where
  entries := by
    rw [← w.entries, Registry.release, List.filter_filter]
    simp
  lastNumber := w.lastNumber
  started := w.started

end Registry.Without

end FrameScript
