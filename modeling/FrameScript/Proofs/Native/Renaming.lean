import FrameScript.Native.Library
import FrameScript.Proofs.Value.Known
import FrameScript.Proofs.Value.Renaming

/-!
# The library on a larger heap

A native of the library does with renamed arguments on a larger heap what it does with the
arguments on the smaller one, unless it never returns there. What it adds to the larger heap
has to be at places of the renaming.
-/

namespace FrameScript

def NativeResult.rename (e : Renaming) : NativeResult → NativeResult
  | value v => value (v.rename e)
  | result => result

/-- The heap stands in the other one, and the clocks show the same. -/
structure World.StandsIn (e : Renaming) (world larger : World) : Prop where
  heap : world.heap.StandsIn e larger.heap
  clock : larger.clock = world.clock

/-- Two replies that differ only by the renaming. -/
structure NativeReply.StandsIn (e : Renaming) (reply larger : NativeReply) : Prop where
  result : larger.result = reply.result.rename e
  context : larger.context = reply.context
  world : reply.world.StandsIn e larger.world

/-- A native treats references alike, wherever they stand. -/
def Native.Renames (native : Native) : Prop :=
  ∀ (e : Renaming) (world larger : World) (context : NativeContext) (args : List Value),
    world.StandsIn e larger →
    (native context larger (args.map (Value.rename e))).result ≠ .endless →
    e.Covers larger.heap (native context larger (args.map (Value.rename e))).world.heap →
    (native context world args).StandsIn e (native context larger (args.map (Value.rename e)))

namespace Native

variable {e : Renaming} {args : List Value}

theorem pure_renames {f : NativeContext → List Value → NativeResult}
    (same : ∀ (e : Renaming) context args,
      f context (args.map (Value.rename e)) = (f context args).rename e) : (pure f).Renames := by
  intro e world larger context args stands _ _
  exact ⟨same e context args, rfl, stands⟩

theorem onHeap_renames {f : NativeContext → Heap → List Value → Heap × NativeResult}
    (stand : ∀ {e : Renaming} {h larger : Heap} context args, h.StandsIn e larger →
      (f context larger (args.map (Value.rename e))).2 ≠ .endless →
      e.Covers larger (f context larger (args.map (Value.rename e))).1 →
      (f context h args).1.StandsIn e (f context larger (args.map (Value.rename e))).1 ∧
        (f context larger (args.map (Value.rename e))).2 = (f context h args).2.rename e) :
    (onHeap f).Renames := by
  intro e world larger context args stands ends covers
  obtain ⟨heap, result⟩ := stand context args stands.heap ends covers
  exact ⟨result, rfl, heap, stands.clock⟩

theorem reading_renames {f : NativeContext → Heap → List Value → Heap × NativeResult}
    (reads : ∀ context h args, (f context h args).1 = h)
    (same : ∀ {e : Renaming} {h larger : Heap} context args, h.StandsIn e larger →
      (f context larger (args.map (Value.rename e))).2 ≠ .endless →
      (f context larger (args.map (Value.rename e))).2 = (f context h args).2.rename e) :
    (onHeap f).Renames := by
  apply onHeap_renames
  intro e h larger context args stands ends _
  rw [reads, reads]
  exact ⟨stands, same context args stands ends⟩

theorem print_renames : print.Renames := by
  intro e world larger context args stands ends _
  cases texts : (args.map (Value.rename e)).mapM (Value.text? larger.heap) with
  | some all =>
    have own : args.mapM (Value.text? world.heap) = some all := by
      rw [List.mapM_map] at texts
      exact Value.mapM_eq_some_mono (fun v _ t found => Value.text?_rename stands.heap found) texts
    rw [print, print, texts, own]
    exact ⟨rfl, rfl, stands.heap, stands.clock⟩
  | none =>
    rw [print, texts] at ends
    exact absurd rfl ends

theorem countError?_map (f : Value → Value) (args : List Value) (count : Nat) (name : String) :
    countError? (args.map f) count name = countError? args count name := by
  rw [countError?, countError?, List.length_map]

theorem countError?_rename {count : Nat} {name : String} {result : NativeResult}
    (found : countError? args count name = some result) (e : Renaming) :
    result.rename e = result := by
  unfold countError? at found
  split at found <;> cases found
  rfl

theorem typeOf_renames : typeOf.Renames := by
  apply pure_renames
  intro e context args
  rw [countError?_map]
  cases counted : countError? args 1 "type" with
  | some result => exact (countError?_rename counted e).symm
  | none =>
    cases args with
    | nil => rfl
    | cons v rest =>
      simp only [List.map_cons, Value.typeName_rename]
      rfl

theorem str_renames : str.Renames := by
  apply reading_renames
  · intro context h args
    repeat' split
    all_goals rfl
  · intro e h larger context args stands ends
    rw [countError?_map] at ends ⊢
    cases counted : countError? args 1 "str" with
    | some result => exact (countError?_rename counted e).symm
    | none =>
      cases args with
      | nil => rfl
      | cons v rest =>
        rw [counted] at ends
        simp only [List.map_cons] at ends ⊢
        cases found : (v.rename e).text? larger with
        | none => simp [found] at ends
        | some text =>
          rw [Value.text?_rename stands found]
          rfl

theorem length_rename {h larger : Heap} (stands : h.StandsIn e larger) (v : Value) :
    length larger (v.rename e) = (length h v).rename e := by
  cases v with
  | list r =>
    rw [Value.rename_list, length, stands.list, Array.size_map]
    rfl
  | object r =>
    rw [Value.rename_object, length, stands.object, Table.size_map]
    rfl
  | _ => rfl

theorem len_renames : len.Renames := by
  apply reading_renames
  · intro context h args
    split <;> rfl
  · intro e h larger context args stands _
    rw [countError?_map]
    cases counted : countError? args 1 "len" with
    | some result => exact (countError?_rename counted e).symm
    | none =>
      cases args with
      | nil => rfl
      | cons v rest => exact length_rename stands v

theorem push_renames : push.Renames := by
  apply onHeap_renames
  intro e h larger context args stands _ _
  rw [countError?_map]
  cases counted : countError? args 2 "push" with
  | some result => exact ⟨stands, (countError?_rename counted e).symm⟩
  | none =>
    cases args with
    | nil => exact ⟨stands, rfl⟩
    | cons v rest =>
      cases v with
      | list r =>
        cases rest with
        | nil => exact ⟨stands, rfl⟩
        | cons w others =>
          simp only [List.map_cons, Value.rename_list]
          rw [stands.list, Array.size_map]
          exact ⟨stands.updateList r fun items => by rw [Array.map_push], rfl⟩
      | _ => exact ⟨stands, rfl⟩

theorem keys_renames : keys.Renames := by
  apply onHeap_renames
  intro e h larger context args stands _ covers
  rw [countError?_map] at covers ⊢
  cases counted : countError? args 1 "keys" with
  | some result => exact ⟨stands, (countError?_rename counted e).symm⟩
  | none =>
    cases args with
    | nil => exact ⟨stands, rfl⟩
    | cons v rest =>
      cases v with
      | object r =>
        have plain (names : List String) :
            (names.map Value.str).toArray.map (Value.rename e) = (names.map Value.str).toArray := by
          simp
        simp only [counted, List.map_cons, Value.rename_object, stands.object,
          Table.keys_map] at covers ⊢
        rw [← plain] at covers
        obtain ⟨heap, v⟩ := stands.newList _ covers
        rw [plain] at heap v
        exact ⟨heap, congrArg NativeResult.value v⟩
      | _ => exact ⟨stands, rfl⟩

theorem clock_renames : clock.Renames := by
  apply onHeap_renames
  intro e h larger context args stands _ covers
  have plain (r : Readings) : (Table.ofList [("frame", Value.num (Number.ofNat r.frame)),
      ("simulation", .num r.simulation), ("real", .num r.real)]).map (Value.rename e) =
      Table.ofList [("frame", Value.num (Number.ofNat r.frame)),
        ("simulation", .num r.simulation), ("real", .num r.real)] := Table.map_ofList _ _
  dsimp only at covers ⊢
  rw [← plain] at covers
  obtain ⟨heap, v⟩ := stands.newObject _ covers
  rw [plain] at heap v
  exact ⟨heap, congrArg NativeResult.value v⟩

theorem numberArg_map (e : Renaming) (args : List Value) (index : Nat) (name : String) :
    numberArg (args.map (Value.rename e)) index name = numberArg args index name := by
  unfold numberArg
  rw [List.getElem?_map]
  cases args[index]? with
  | none => rfl
  | some v => cases v <;> rfl

theorem numeric_renames (name : String) (f : Number → Number) : (numeric name f).Renames := by
  apply pure_renames
  intro e context args
  rw [numberArg_map]
  split <;> rfl

theorem combineFrom_map (e : Renaming) (name : String) (f : Number → Number → Number)
    (args : List Value) (index left : Nat) (acc : Number) :
    combineFrom name f (args.map (Value.rename e)) index left acc =
      (combineFrom name f args index left acc).rename e := by
  induction left generalizing index acc with
  | zero => rfl
  | succ left ih =>
    rw [combineFrom, combineFrom, numberArg_map]
    split
    · exact ih _ _
    · rfl

theorem combining_renames (name : String) (f : Number → Number → Number) :
    (combining name f).Renames := by
  apply pure_renames
  intro e context args
  rw [numberArg_map, List.length_map, List.isEmpty_map]
  split
  · rfl
  · split
    · exact combineFrom_map e _ _ _ _ _ _
    · rfl

theorem wakeMode_rename (e : Renaming) (v : Value) : wakeMode (v.rename e) = wakeMode v := by
  cases v <;> rfl

theorem duration_rename (e : Renaming) (position : Nat) (v : Value) :
    duration position (v.rename e) = duration position v := by
  cases v <;> rfl

theorem wakeRequest_map (e : Renaming) (args : List Value) :
    wakeRequest (args.map (Value.rename e)) = wakeRequest args := by
  rcases args with _ | ⟨v, _ | ⟨w, _ | ⟨x, rest⟩⟩⟩
  · rfl
  · simp only [wakeRequest, List.map_cons, List.map_nil, duration_rename]
  · simp only [wakeRequest, List.map_cons, List.map_nil, duration_rename, wakeMode_rename]
  · simp only [wakeRequest, List.map_cons, List.length_cons, List.length_map]

theorem suspend_renames : suspend.Renames := by
  apply pure_renames
  intro e context args
  rw [wakeRequest_map]
  split <;> rfl

end Native

/-- Every native of the library treats references alike. -/
theorem Natives.withSuspend_rename {name : String} {native : Native}
    (found : Natives.withSuspend.get? name = some native) : native.Renames := by
  rcases Table.mem_insert (Table.mem_of_get? found) with same | mem
  · cases same
    exact Native.suspend_renames
  · have listed := Table.mem_ofList mem
    simp only [List.mem_cons, List.not_mem_nil, or_false, Prod.mk.injEq] at listed
    rcases listed with ⟨-, rfl⟩ | ⟨-, rfl⟩ | ⟨-, rfl⟩ | ⟨-, rfl⟩ | ⟨-, rfl⟩ | ⟨-, rfl⟩ |
      ⟨-, rfl⟩ | ⟨-, rfl⟩ | ⟨-, rfl⟩ | ⟨-, rfl⟩ | ⟨-, rfl⟩ | ⟨-, rfl⟩ | ⟨-, rfl⟩ | ⟨-, rfl⟩
    · exact Native.print_renames
    · exact Native.typeOf_renames
    · exact Native.str_renames
    · exact Native.len_renames
    · exact Native.push_renames
    · exact Native.keys_renames
    · exact Native.clock_renames
    all_goals first | exact Native.numeric_renames _ _ | exact Native.combining_renames _ _

end FrameScript
