import ContentVault.Proofs.Jobs.Submitting
import ContentVault.Proofs.Json.Reading
import ContentVault.Proofs.Notary.Answers

/-! # Notarization over a network

    A notarizer that calls a service comes to what the network brings back,
    call by call.  Whatever that is, a run of the notarization job leaves each
    row as it was or puts a transaction id into it that an answer has given
    (`Fills`), and so never a blank one.  That the answer was one of success is
    more than can be said: one that points elsewhere is taken as well
    (`redirection_notarizes`).

    Main statement: `ids_from_accepted_answers`. -/

namespace ContentVault

/-- A notarization service and the network on the way to it. -/
structure OnlineNotary where
  remote : RemoteNotary
  /-- What comes back for the request of each call, the first of which is call 1. -/
  network : Nat → NotaryRequest → Option NotaryResponse
  /-- How long a call takes, in milliseconds. -/
  delayMillis : Nat := 0
  /-- How many calls there were. -/
  calls : Nat := 0

instance : NotaryService OnlineNotary where
  submit n _ _ := { n with calls := n.calls + 1 }
  settle n id hash := (n.remote.store (n.network n.calls) id hash, n)
  delayMillis := OnlineNotary.delayMillis

/-- A job that is in progress is not begun again. -/
theorem Caretaker.run_of_held {σ β ν : Type} [ContentOrigin σ] [BlobStorage β] [NotaryService ν]
    (c : Caretaker) (now : Instant) (time : Timestamp) {job : Job} {w : JobState σ β ν}
    (hheld : (w.locks.get job).held = true) : c.run now time job w = (.stillRunning, w) := by
  rw [run, begin, RunLock.acquire, if_pos hheld]

namespace OnlineNotary

open Caretaker

/-! ## Calls -/

/-- Each call comes to what the network has brought back for it. -/
theorem answer_of_mem_callAll (pending : List Entry) (n : OnlineNotary) {call : NotaryCall}
    (hcall : call ∈ (callAll pending n).1) :
    ∃ k, n.calls < k ∧ call.answer = n.remote.store (n.network k) call.id call.hash := by
  induction pending generalizing n with
  | nil => cases hcall
  | cons e pending ih =>
      rcases List.mem_cons.mp hcall with rfl | hlater
      · exact ⟨n.calls + 1, Nat.lt_succ_self _, rfl⟩
      · obtain ⟨k, hk, hanswer⟩ := ih { n with calls := n.calls + 1 } hlater
        exact ⟨k, Nat.lt_of_succ_lt hk, hanswer⟩

/-! ## Rows -/

/-- Whether a row is as it was, or is one that could be read and had no transaction id, and has
    been given one that the service gave for it in a new call. -/
def Fills (n : OnlineNotary) (r r' : Row) : Prop :=
  r' = r ∨ ∃ e k tx, r.decode = .ok e ∧ e.record.notarization = none ∧ n.calls < k ∧
    n.remote.Obtains (n.network k) e.record.id (notarizedHash e) tx ∧
    r' = r.set .notarizationTxId (.text tx)

/-- What the calls of a run leave of a row. -/
theorem fills_afterCalls (s : RecordStore) (n : OnlineNotary) {r : Row} (hr : r ∈ s.table.rows) :
    n.Fills r (r.afterCalls (callsOf s n)) := by
  by_cases hfor : ∃ call ∈ callsOf s n, r.isFor call.id = true
  · obtain ⟨call, hcall, hfor⟩ := hfor
    obtain ⟨r', hr', e, hdecode, hnone, hid, hhash⟩ := exists_row_of_call hcall
    -- ids are unique in a table, so the call was made for what is in this row
    have hsame : r = r' := by
      have hfound := Table.find?_of_isFor hr' (isFor_of_decode hdecode)
      rw [← hid, Table.find?_of_isFor hr hfor] at hfound
      exact Option.some.inj hfound
    subst hsame
    obtain ⟨k, hk, hanswer⟩ := answer_of_mem_callAll s.unnotarized n hcall
    rw [Row.afterCalls_of_mem (nodup_callsOf s n) hcall hfor, NotaryCall.onRow]
    cases htx : call.answer with
    | error failure => exact Or.inl rfl
    | ok tx =>
        have hset : (EntryUpdate.notarized call.id tx).onRow r
            = r.set .notarizationTxId (.text tx) := if_pos hfor
        rw [hid, hhash, htx] at hanswer
        exact Or.inr ⟨e, k, tx, hdecode, hnone, hk,
          (RemoteNotary.store_eq_ok_iff _ _ _ _ _).mp hanswer.symm, hset⟩
  · exact Or.inl (Row.afterCalls_of_none fun call hcall =>
      Bool.eq_false_iff.mpr fun h => hfor ⟨call, hcall, h⟩)

/-! ## Runs -/

variable {σ β : Type} [ContentOrigin σ] [BlobStorage β]

/-- What a run leaves of the table. -/
theorem forall₂_fills_run (c : Caretaker) (now : Instant) (time : Timestamp)
    (w : JobState σ β OnlineNotary) :
    List.Forall₂ w.notary.Fills w.stores.records.table.rows
      (c.run now time .notarize w).2.stores.records.table.rows := by
  cases hheld : (w.locks.get .notarize).held with
  | true =>
      rw [c.run_of_held now time hheld]
      exact List.forall₂_same.mpr fun r _ => Or.inl rfl
  | false =>
      obtain ⟨t, hrows, hrun⟩ := c.run_notarize_eq now time w hheld
      rw [hrun]
      show List.Forall₂ _ _ t.table.rows
      rw [hrows, List.forall₂_map_right_iff, List.forall₂_same]
      exact fun r hr => w.notary.fills_afterCalls w.stores.records hr

end OnlineNotary

/-- Transaction ids come from accepted answers only:

    * A call comes to a transaction id exactly if the service is sent the digest and answers
      with this id, under a status that stands for no error.
    * Any other call comes to the error of an external service.
    * A run of the notarization job, whatever is in the table and whatever the network
      brings, leaves each row as it was or gives it such an id. -/
theorem ids_from_accepted_answers {σ β : Type} [ContentOrigin σ] [BlobStorage β]
    (n : RemoteNotary) :
    (∀ exchange id hash tx,
      n.store exchange id hash = .ok tx ↔ n.Obtains exchange id hash tx) ∧
    (∀ exchange id hash, (∃ tx, n.store exchange id hash = .ok tx) ∨
      ∃ what, n.store exchange id hash = .error (.externalService what)) ∧
    ∀ (c : Caretaker) (now : Instant) (time : Timestamp) (w : JobState σ β OnlineNotary),
      List.Forall₂ w.notary.Fills w.stores.records.table.rows
        (c.run now time .notarize w).2.stores.records.table.rows := by
  refine ⟨n.store_eq_ok_iff, fun exchange id hash => ?_, OnlineNotary.forall₂_fills_run⟩
  cases hstore : n.store exchange id hash with
  | ok tx => exact Or.inl ⟨tx, rfl⟩
  | error e =>
      obtain ⟨what, rfl⟩ := RemoteNotary.store_error hstore
      exact Or.inr ⟨what, rfl⟩

namespace Sample

/-- An object with a transaction id. -/
def grant : Json := .object [("transaction_id", .string "tx-42")]

/-- An answer that points elsewhere, with this object in it. -/
def redirection : NotaryResponse := ⟨300, Bytes.ofString grant.render⟩

theorem redirection_grants : redirection.Grants "tx-42" where
  status := by
    rw [NotaryResponse.IsAccepted]
    decide
  body := ⟨grant, Json.parseBytes?_render ⟨trivial, trivial⟩,
    .object [] [] "tx-42" fun _ h => nomatch h⟩
  visible := ⟨'t', by decide, by decide⟩

/-- A service that gives no other answer. -/
def redirecting : OnlineNotary where
  remote := ⟨⟨"http", "/notarize", none⟩, none⟩
  network := fun _ _ => some redirection

end Sample

/-- The entry has a transaction id after a run that got no answer of success. -/
theorem redirection_notarizes :
    Sample.redirection.status = 300 ∧
    (∀ id hash, Sample.redirecting.remote.store (Sample.redirecting.network 1) id hash
      = .ok "tx-42") ∧
    ∃ e, (Sample.hasty.run 0 Sample.draws.now .notarize
        (Sample.refusing.withNotary Sample.redirecting)).2.stores.records.find "report"
        = .ok (some e) ∧ e.record.notarization = some "tx-42" := by
  obtain ⟨hok, -, -⟩ := ids_from_accepted_answers (σ := Shelf) (β := BlobStore)
    Sample.redirecting.remote
  have hstore : ∀ k id hash, Sample.redirecting.remote.store (Sample.redirecting.network k) id hash
      = .ok "tx-42" := fun k id hash =>
    (hok _ id hash "tx-42").mpr ⟨_, Sample.redirection, rfl, rfl, Sample.redirection_grants⟩
  refine ⟨rfl, hstore 1, ?_⟩
  have hreadable : Sample.sealedEntry.IsReadable := by decide
  obtain ⟨t, hrows, hrun⟩ := Sample.hasty.run_notarize_eq 0 Sample.draws.now
    (Sample.refusing.withNotary Sample.redirecting) rfl
  obtain ⟨call, hcall, hid, -⟩ := Caretaker.exists_call_of_row (n := Sample.redirecting)
    (s := Sample.refusing.stores.records) List.mem_cons_self (Row.decode_ofEntry hreadable) rfl
  obtain ⟨e, -, -, hfind⟩ := Caretaker.find_of_call hrows hcall
  obtain ⟨k, -, hanswer⟩ := OnlineNotary.answer_of_mem_callAll _ _ hcall
  rw [hanswer, hstore, hid] at hfind
  rw [hrun]
  exact ⟨_, hfind, rfl⟩

end ContentVault
