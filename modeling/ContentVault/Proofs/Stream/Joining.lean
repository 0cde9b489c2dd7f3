import ContentVault.Proofs.Stream.Causes

/-! # What the two branches of a tee come to

    Once both branches have a result and the producer has exited, they are
    joined (`joined`): a failure of one of them is the answer, and of two
    failures the one that explains the other.  So the answer is the failure of
    the source, if that fails and both branches are loyal
    (`concludes_of_ending`), and it is the failure of the main branch, unless
    that only says that its sibling is gone (`concludes_of_result`); both under
    every fair schedule, which comes to an answer. -/

namespace ContentVault

open ByteReader ReaderView

section

variable {α γ ρ : Type}

/-- What the results of two branches and of the producer come to. -/
def joined (combine : α → γ → Nat → ρ) :
    Attempt α → Attempt γ → Except ProducerFailure Nat → Attempt ρ
  | .ok x, .ok y, .ok passed => .ok (combine x y passed)
  | .ok _, .ok _, .error e => .error (.ofProducer e)
  | .ok _, .error g, _ => .error g
  | .error f, .ok _, _ => .error f
  | .error f, .error g, _ => .error (.explaining f g)

/-- A failure of the first branch with something to say is what they come to. -/
theorem joined_of_error (combine : α → γ → Nat → ρ) {f : VaultFailure}
    (hf : f.isSiblingClosed = false) (r : Attempt γ) (passed : Except ProducerFailure Nat) :
    joined combine (.error f) r passed = .error f := by
  cases r with
  | ok y => rfl
  | error g =>
      show Except.error (VaultFailure.explaining f g) = _
      rw [VaultFailure.explaining, hf, Bool.false_and, if_neg Bool.false_ne_true]

end

namespace Crew

variable {σ α γ ρ : Type} [ByteReader σ] [ReaderView σ] {b : Branch (Attempt α)}
  {c : Branch (Attempt γ)} {up : Upstream σ} {side : Side} {combine : α → γ → Nat → ρ}
  {x : Crew σ b c}

/-- What a crew has come to. -/
def answer? (combine : α → γ → Nat → ρ) (x : Crew σ b c) : Option (Attempt ρ) :=
  match b.result? x.main, c.result? x.digest, x.session.tee.result? with
  | some r, some r', some passed => some (joined combine r r' passed)
  | _, _, _ => none

omit [ByteReader σ] [ReaderView σ] in
theorem answer_eq_some_iff {r : Attempt ρ} :
    x.answer? combine = some r ↔ ∃ q q' passed, b.result? x.main = some q ∧
      c.result? x.digest = some q' ∧ x.session.tee.result? = some passed ∧
      joined combine q q' passed = r := by
  rw [answer?]
  constructor
  · intro h
    split at h
    · rename_i q q' passed hmain hdigest hpassed
      exact ⟨q, q', passed, hmain, hdigest, hpassed, Option.some.inj h⟩
    · cases h
  · rintro ⟨q, q', passed, hmain, hdigest, hpassed, rfl⟩
    rw [hmain, hdigest, hpassed]

omit [ByteReader σ] [ReaderView σ] in
/-- A crew that is done has come to an answer. -/
theorem IsDone.answer (h : x.IsDone) : ∃ r, x.answer? combine = some r := by
  obtain ⟨hmain, hdigest, hpassed⟩ := h
  obtain ⟨q, hq⟩ := Option.isSome_iff_exists.mp hmain
  obtain ⟨q', hq'⟩ := Option.isSome_iff_exists.mp hdigest
  obtain ⟨passed, hp⟩ := Option.isSome_iff_exists.mp hpassed
  exact ⟨_, answer_eq_some_iff.mpr ⟨q, q', passed, hq, hq', hp, rfl⟩⟩

/-- Whether a crew comes to an answer under a schedule, and to none but such. -/
def Concludes (up : Upstream σ) (side : Side) (combine : α → γ → Nat → ρ)
    (schedule : Nat → CrewAction) (x : Crew σ b c) (P : Attempt ρ → Prop) : Prop :=
  (∃ n r, (x.along up side schedule n).answer? combine = some r) ∧
    ∀ n r, (x.along up side schedule n).answer? combine = some r → P r

/-- The failure of a source that is supplied and read is what two loyal branches
    come to that get on. -/
theorem concludes_of_ending {Inv : b.State → Option Ending → Prop}
    {Inv' : c.State → Option Ending → Prop} (hb : b.Loyal Inv) (hc : c.Loyal Inv')
    (hb' : b.GetsOn) (hc' : c.GetsOn) {source : σ} {buffer : Nat} {e : IoError}
    (hsource : Session.passedEnd source buffer = some e) (heager : up.IsEager)
    {schedule : Nat → CrewAction} (hfair : Fair schedule) :
    (begin b c source buffer).Concludes up side combine schedule (· = .error (.ofIo e)) := by
  refine ⟨?_, fun n r hr => ?_⟩
  · obtain ⟨Live, rank, hlively, hstart⟩ := hb'
    obtain ⟨Live', rank', hlively', hstart'⟩ := hc'
    obtain ⟨n, hn⟩ := (kept_begin up side b c source buffer).answers hlively hlively' hstart hstart'
      (Or.inl heager) hfair
    exact ⟨n, hn.answer⟩
  · obtain ⟨q, q', passed, hq, hq', -, rfl⟩ := answer_eq_some_iff.mp hr
    obtain ⟨f, g, rfl, rfl, hexplains⟩ := explained hb hc hsource schedule n hq hq'
    exact congrArg Except.error hexplains

/-- A failure of the main branch with something to say is what the crew comes
    to, whatever the source does. -/
theorem concludes_of_result (hb : b.Settles) (hc : c.GetsOn) (source : σ) (buffer : Nat)
    {schedule : Nat → CrewAction} (hfair : Fair schedule) {m : Nat} {f : VaultFailure}
    (hm : b.result? ((begin b c source buffer).along up side schedule m).main = some (.error f))
    (hf : f.isSiblingClosed = false) :
    (begin b c source buffer).Concludes up side combine schedule (· = .error f) := by
  refine ⟨?_, fun n r hr => ?_⟩
  · obtain ⟨n, hn⟩ := answers_later hb hc source buffer hfair hm
    exact ⟨n, hn.answer⟩
  · obtain ⟨q, q', passed, hq, -, -, rfl⟩ := answer_eq_some_iff.mp hr
    rw [result_unique hm hq]
    exact joined_of_error combine hf q' passed

end Crew

end ContentVault
