import Reddish.Database.Deadlines
import Reddish.Database.Transparency

namespace Reddish

open Library

/-!
# Calls that throw

A call may throw at any of its allocations, because a record is too large or
because the log cannot be written.  Nothing of it can be seen afterwards, and
the log has at most got the deletion of its key, which had expired.
-/

namespace Database

variable {world after : World} {space : Keyspace} {call : Call} {key : Bytes} {thrown : Exn}

theorem Form.looksLike_lookup (form : Form) (now : Int64) :
    Spec.LooksLike now (form.lookup now space) space := by
  cases form with
  | answers result => exact fun _ => rfl
  | reads key answer => exact Spec.looksLike_active
  | writes key plan tooLarge => exact Spec.looksLike_writable

theorem Form.lookupRecords_cases {form : Form} (names : form.Names key) (now : Int64) :
    form.lookupRecords now space = [] ∨ form.lookupRecords now space = [Spec.record .del [key]] := by
  cases form with
  | answers | reads => exact Or.inl rfl
  | writes name plan tooLarge =>
      cases names
      simp only [Form.lookupRecords, Spec.writable]
      split
      · exact Or.inl rfl
      · split
        · exact Or.inr rfl
        · exact Or.inl rfl

theorem LoggedBefore.cases {records : List Wal.Record}
    (logged : LoggedBefore world after records thrown)
    (few : records = [] ∨ records = [Spec.record .del [key]]) :
    thrown = .error .diskWriteFailed ∨ after.records = world.records ∨
      after.records = world.records ++ [Spec.record .del [key]] := by
  rcases logged with logged | disk
  · refine Or.inr ?_
    rcases few with rfl | rfl
    · exact Or.inl (by rw [logged, ite_self, List.append_nil])
    · cases logging : world.logging with
      | false => exact Or.inl (by rw [logged, logging]; exact List.append_nil _)
      | true => exact Or.inr (by rw [logged, logging]; rfl)
  · exact Or.inl disk

/-- A call on a key that throws leaves everything that can be seen as it was. -/
theorem failed_call_unseen (reachable : Reachable world) (named : call.key = some key)
    (threw : call.run world = (.error thrown, after)) :
    exists now, world.Reads now ∧ (forall probe, seen now after probe = seen now world probe) ∧
      (thrown = .error .diskWriteFailed ∨ after.records = world.records ∨
        after.records = world.records ++ [Spec.record .del [key]]) := by
  rcases reachable.idle with ⟨space, ready⟩
  rcases Call.carries named with ⟨form, formed, carries⟩
  have abandoned := Cmd.of_wp_error (carries world space ready reachable.live) threw
  rcases abandoned with ⟨left, logged⟩ | ⟨now, moment, reads, -, left, logged⟩
  · refine ⟨_, ⟨0, rfl⟩, fun probe => ?_, logged.cases (Or.inl rfl)⟩
    rw [seen, seen, <- left.rep.find_eq, ready.rep.find_eq]
  · refine ⟨now, reads, fun probe => ?_,
      logged.cases (Form.lookupRecords_cases (Call.form_names (formed moment) named) now)⟩
    rw [seen, seen, <- left.rep.find_eq, <- ready.rep.find_eq]
    exact Form.looksLike_lookup (form moment) now probe

/-- Memory for one key only. -/
def scarce : World :=
  stateAfter [.set [97] [98]]
    (fresh 4 Clock.still Clock.still (fun n => if n < 1 then some fun _ => 0 else none) calm.orders)

/-- A longer value finds no memory, and the key keeps the value it has. -/
theorem failed_call_unseen_scarce :
    ((Call.set [97] (List.replicate 100 99)).run scarce).1 = .error .badAlloc ∧
      exists now, seen now ((Call.set [97] (List.replicate 100 99)).run scarce).2 [97] =
        some ⟨[97], .string [98], none⟩ := by
  have threw : ((Call.set [97] (List.replicate 100 99)).run scarce).1 = .error .badAlloc := by
    decide +kernel
  have known : scarce.db.lookup [97] = some ⟨[97], .string [98], none⟩ := rfl
  have reachable : Reachable scarce := (Reachable.start ..).stateAfter _
  rcases failed_call_unseen reachable rfl (Prod.ext threw rfl) with ⟨now, -, same, -⟩
  refine ⟨threw, now, (same [97]).trans ?_⟩
  rw [seen, known]
  rfl

end Database

end Reddish
