import FrameScript.Proofs.Host.Registration
import FrameScript.Proofs.Number.Order

/-!
# Queues in order

The entries of a queue are strictly ordered by wake value and filing, whatever was
pushed and released. What is due is therefore at the front of a queue, unless a wake
value is a negative NaN, which comes first and is never due.
-/

namespace FrameScript

/-- An entry is released before another. -/
def QueueEntry.Before (a b : QueueEntry) : Prop := a.compare b = .lt

namespace QueueEntry

variable {a b c : QueueEntry}

theorem before_iff : a.Before b ↔ a.wake.place < b.wake.place ∨
    a.wake.place = b.wake.place ∧ a.filed < b.filed := by
  rw [Before, compare, Number.totalCompare_eq, Ordering.then_eq_lt, Int.compare_eq_lt,
    Int.compare_eq_eq, Nat.compare_eq_lt]

theorem Before.trans (h : a.Before b) (k : b.Before c) : a.Before c := by
  rw [before_iff] at *
  omega

/-- Of two entries one is released before the other, unless they were filed at once. -/
theorem before_of_not_before (h : ¬ a.Before b) (apart : a.filed ≠ b.filed) : b.Before a := by
  rw [before_iff] at *
  omega

theorem Before.isDue (h : a.Before b) (sound : a.wake ≠ .nan true) {now : Number}
    (due : SuspensionQueue.isDue now b) : SuspensionQueue.isDue now a := by
  rw [before_iff] at h
  exact Number.atMost_of_place_le (by omega) sound due

end QueueEntry

namespace SuspensionQueue

/-- The entries are in the order of release, and every one has been counted. -/
structure Ordered (q : SuspensionQueue) : Prop where
  sorted : q.entries.Pairwise QueueEntry.Before
  counted : ∀ e ∈ q.entries, e.filed < q.filedCount

theorem new_ordered (mode : WakeMode) : (new mode).Ordered := ⟨.nil, by simp [new]⟩

theorem sorted_insertEntry {e : QueueEntry} {l : List QueueEntry}
    (sorted : l.Pairwise QueueEntry.Before) (apart : ∀ other ∈ l, e.filed ≠ other.filed) :
    (insertEntry e l).Pairwise QueueEntry.Before := by
  induction l with
  | nil => simp [insertEntry]
  | cons first rest ih =>
    obtain ⟨before, sorted'⟩ := List.pairwise_cons.mp sorted
    obtain ⟨apart_first, apart_rest⟩ := List.forall_mem_cons.mp apart
    unfold insertEntry
    split
    · rename_i earlier
      have first_later : e.Before first := by simpa [QueueEntry.Before] using earlier
      refine List.pairwise_cons.mpr ⟨fun other mem => ?_, sorted⟩
      rcases List.mem_cons.mp mem with rfl | mem
      · exact first_later
      · exact first_later.trans (before other mem)
    · rename_i later
      have first_earlier : first.Before e :=
        QueueEntry.before_of_not_before (by simpa [QueueEntry.Before] using later) apart_first
      refine List.pairwise_cons.mpr ⟨fun other mem => ?_, ih sorted' apart_rest⟩
      rcases List.mem_cons.mp ((insertEntry_perm e rest).mem_iff.mp mem) with rfl | mem
      · exact first_earlier
      · exact before other mem

theorem Ordered.push {q : SuspensionQueue} (h : q.Ordered) (wake : Number) (id : ContinuationId) :
    (q.push wake id).Ordered where
  sorted := sorted_insertEntry h.sorted fun other mem => (Nat.ne_of_lt (h.counted other mem)).symm
  counted e mem := by
    rcases mem_push.mp mem with rfl | mem
    · exact Nat.lt_succ_self _
    · exact Nat.lt_succ_of_lt (h.counted e mem)

theorem Ordered.takeDue {q : SuspensionQueue} (h : q.Ordered) (now : Number)
    (policy : DrainPolicy) : (q.takeDue now policy).2.Ordered where
  sorted := h.sorted.sublist (List.drop_sublist _ _)
  counted e mem := h.counted e (List.mem_of_mem_drop mem)

def due (q : SuspensionQueue) (now : Number) : List QueueEntry := q.entries.filter (isDue now)

/-- The due entries that a queue releases: all of them, or the first one. -/
def released (q : SuspensionQueue) (now : Number) : DrainPolicy → List QueueEntry
  | .allDue => q.due now
  | .onePerTick => (q.due now).take 1

section

variable {q : SuspensionQueue} (ordered : q.Ordered) (sound : ∀ e ∈ q.entries, e.wake ≠ .nan true)

include ordered sound

theorem Ordered.takeWhile_isDue (now : Number) : q.entries.takeWhile (isDue now) = q.due now := by
  have sorted := ordered.sorted
  unfold due
  generalize q.entries = entries at sorted sound
  induction entries with
  | nil => rfl
  | cons first rest ih =>
    obtain ⟨before, sorted'⟩ := List.pairwise_cons.mp sorted
    obtain ⟨sound_first, sound_rest⟩ := List.forall_mem_cons.mp sound
    rw [List.takeWhile_cons, List.filter_cons]
    split
    · rw [ih sorted' sound_rest]
    · rename_i early
      refine (List.filter_eq_nil_iff.mpr fun e mem => ?_).symm
      exact fun late => early ((before e mem).isDue sound_first late)

/-- A queue releases what it has to and keeps the rest. -/
theorem Ordered.takeDue_eq (now : Number) (policy : DrainPolicy) :
    ∃ rest, q.entries = q.released now policy ++ rest ∧
      q.takeDue now policy = ((q.released now policy).map (·.id), { q with entries := rest }) := by
  have front := ordered.takeWhile_isDue sound now
  obtain ⟨rest, split⟩ : q.due now <+: q.entries := front ▸ List.takeWhile_prefix _
  unfold SuspensionQueue.takeDue released
  generalize q.due now = due at *
  rw [front, ← split]
  cases policy with
  | allDue => exact ⟨rest, rfl, by simp⟩
  | onePerTick =>
    cases due with
    | nil => exact ⟨rest, rfl, by simp⟩
    | cons first others => exact ⟨others ++ rest, rfl, by simp⟩

end

end SuspensionQueue

end FrameScript
