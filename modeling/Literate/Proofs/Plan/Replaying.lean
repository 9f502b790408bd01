import Literate.Plan
import Literate.Proofs.Disk.Flush
import Mathlib.Data.List.Induction

/-!
# What replaying operations comes to

Of operations on the bytes of a file only those from the last overwrite on are left; without one, all of
them are, behind the old bytes (`Leaves`, `replay_leaves`). So a writer that knows of an overwrite need not
read the file (`Disk.flush_without_reading`), and what a plan makes of a destination is what its operations
leave, in the order of their roles (`Plan.toWrite_eq`).
-/

namespace Literate

namespace Operation

/-- The bytes of the content. -/
def bytes (op : Operation) : List UInt8 := op.content.data.toList

/-- What operations leave of some bytes and of their own contents. -/
inductive Leaves (old : List UInt8) (ops : List Operation) : List UInt8 → Prop where
  | appended (h : ∀ op ∈ ops, op.mode = .append) : Leaves old ops (old ++ ops.flatMap bytes)
  | overwritten {before after : List Operation} {op : Operation} (split : ops = before ++ op :: after)
      (overwrites : op.mode = .overwrite) (last : ∀ op ∈ after, op.mode = .append) :
      Leaves old ops ((op :: after).flatMap bytes)

theorem Leaves.append {old new : List UInt8} {ops : List Operation} (h : Leaves old ops new)
    {op : Operation} (hop : op.mode = .append) : Leaves old (ops ++ [op]) (new ++ op.bytes) := by
  cases h with
  | appended h =>
    have hall : ∀ o ∈ ops ++ [op], o.mode = .append :=
      List.forall_mem_append.mpr ⟨h, List.forall_mem_singleton.mpr hop⟩
    have hleft : Leaves old (ops ++ [op]) (old ++ (ops ++ [op]).flatMap bytes) := .appended hall
    simpa using hleft
  | @overwritten before after first split overwrites last =>
    have hall : ∀ o ∈ after ++ [op], o.mode = .append :=
      List.forall_mem_append.mpr ⟨last, List.forall_mem_singleton.mpr hop⟩
    have hsplit : ops ++ [op] = before ++ first :: (after ++ [op]) := by simp [split]
    have hleft : Leaves old (ops ++ [op]) ((first :: (after ++ [op])).flatMap bytes) :=
      .overwritten hsplit overwrites hall
    simpa using hleft

/-- Replaying operations leaves what they leave one by one. -/
theorem replay_leaves (old : ByteArray) (ops : List Operation) :
    Leaves old.data.toList ops (replay old ops).data.toList := by
  induction ops using List.reverseRecOn with
  | nil =>
    have hleft : Leaves old.data.toList [] (old.data.toList ++ [].flatMap bytes) := .appended nofun
    simpa using hleft
  | append_singleton ops op ih =>
    rw [replay_append, replay_cons, replay_nil]
    cases hop : op.mode with
    | append =>
      have hnew : (op.apply (replay old ops)).data.toList = (replay old ops).data.toList ++ op.bytes := by
        simp [apply, hop, bytes]
      rw [hnew]
      exact ih.append hop
    | overwrite =>
      have hnew : (op.apply (replay old ops)).data.toList = [op].flatMap bytes := by
        simp [apply, hop, bytes]
      rw [hnew]
      exact .overwritten rfl hop nofun

end Operation

namespace Disk

/-- With an overwrite among the operations nothing is read, and the file gets the bytes that it would get if
it were. -/
theorem flush_without_reading (d : Disk) (root : Path) (request : WriteRequest) (s : Surroundings)
    (h : Operation.anyOverwrite request.operations = true) :
    let p := root.join (.ofString request.destination)
    d.existing p request.operations = .ok .empty ∧
      ((d.flush root request s).2.ok = true →
        Replayed d (d.flush root request s).1 (p.locate d.cwd) request.operations
          (d.flush root request s).2.bytesWritten) := by
  intro p
  refine ⟨by rw [existing, if_pos h], ?_⟩
  rw [flush]
  intro hok
  cases hflush : d.flushTo p request.operations s with
  | mk d' result =>
    rw [hflush] at hok
    cases result with
    | ok n => exact (flushTo_replayed_iff hflush).mpr (Or.inl h)
    | error refused => cases hok

end Disk

namespace Plan

/-- The operation that writes a fragment. -/
def writing (f : Fragment) : Operation := ⟨f.content.toUTF8, f.config.mode⟩

/-- A destination is written with the fragments that are kept and go there, those before the body first and
those after it last. -/
theorem toWrite_eq {fragments : List Fragment} {filter : Option String} {declared : List String}
    {plan : DestinationPlan} (h : plan ∈ (ofFragments fragments filter declared).destinations) :
    let routed := (fragments.filter (keeps filter)).filter
      (·.config.destination == some plan.destination)
    plan.toWrite = (ofRole routed .before).map writing ++ (ofRole routed .body).map writing ++
      (ofRole routed .after).map writing := by
  intro routed
  obtain ⟨d, -, rfl⟩ := List.mem_map.mp h
  rw [DestinationPlan.toWrite, forDestination, arranged, List.map_map]
  simp only [List.map_append]
  rfl

/-- Replaying leaves what comes from the last overwrite on, or everything behind the old bytes. So the old
bytes do not matter once there is an overwrite, neither to the writer of a destination nor to a plan, whose
operations are replayed role by role, and operations can be replayed in two steps. -/
theorem replays_from_last_overwrite :
    (∀ old ops, Operation.Leaves old.data.toList ops (Operation.replay old ops).data.toList) ∧
    (∀ ops, Operation.anyOverwrite ops = true →
      ∀ old old', Operation.replay old ops = Operation.replay old' ops) ∧
    (∀ old ops more, Operation.replay old (ops ++ more) =
      Operation.replay (Operation.replay old ops) more) ∧
    (∀ (d : Disk) root (request : WriteRequest) s,
      Operation.anyOverwrite request.operations = true →
        let p := root.join (.ofString request.destination)
        d.existing p request.operations = .ok .empty ∧
          ((d.flush root request s).2.ok = true →
            Disk.Replayed d (d.flush root request s).1 (p.locate d.cwd) request.operations
              (d.flush root request s).2.bytesWritten)) ∧
    ∀ fragments filter declared, ∀ plan ∈ (ofFragments fragments filter declared).destinations,
      let routed := (fragments.filter (keeps filter)).filter
        (·.config.destination == some plan.destination)
      let ops := (ofRole routed .before).map writing ++ (ofRole routed .body).map writing ++
        (ofRole routed .after).map writing
      ∀ old, Operation.Leaves old.data.toList ops (plan.finalBytes old).data.toList := by
  refine ⟨Operation.replay_leaves, fun ops h => Operation.replay_eq_of_any h,
    Operation.replay_append, Disk.flush_without_reading, ?_⟩
  intro fragments filter declared plan hplan routed ops old
  have hops : plan.toWrite = ops := toWrite_eq hplan
  rw [DestinationPlan.finalBytes, hops]
  exact Operation.replay_leaves old ops

/-- The log is written anew in the middle of the operations. -/
theorem replays_from_last_overwrite_logged :
    let ops : List Operation := [⟨"a".toUTF8, .append⟩, ⟨"b".toUTF8, .overwrite⟩, ⟨"c".toUTF8, .append⟩]
    let out := Disk.logged.flush .here ⟨"log", ops⟩
    Operation.anyOverwrite ops = true ∧ out.2.ok = true ∧
      Disk.Replayed .logged out.1 ["work", "log"] ops out.2.bytesWritten := by
  intro ops out
  have hany : Operation.anyOverwrite ops = true := rfl
  have hok : out.2.ok = true := by decide +kernel
  have hplace : (Path.here.join (.ofString "log")).locate Disk.logged.cwd = ["work", "log"] := by
    decide +kernel
  obtain ⟨-, -, -, hflush, -⟩ := replays_from_last_overwrite
  refine ⟨hany, hok, ?_⟩
  rw [← hplace]
  exact (hflush .logged .here ⟨"log", ops⟩ .usual hany).2 hok

end Plan

end Literate
