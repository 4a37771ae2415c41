import Shmfx.Logging.Order

/-! A log message reaches the sink whole or flagged, unless the scratch buffer cuts it. -/
namespace Shmfx

open Lts

universe u v

/-- A sink record carries exactly the logged bytes or says that it does not. -/
def WholeOrFlagged (call : LogCall) (record : LogRecord) : Prop :=
  record.payload = call.message ∨ record.flags &&& recordFlagTruncated ≠ 0

/-- What `drain_ring` copies without cutting a record that is not yet marked as cut. -/
def FitsScratch (options : CenterOptions) (x : Stored) : Prop :=
  x.payload.length ≤ options.scratchBytes.toNat ∨ x.flags &&& recordFlagTruncated ≠ 0

/-- The scratch buffer is the only silent cut. -/
theorem wholeOrFlagged_iff {options : CenterOptions} {call : LogCall} {now : UInt64} {a : Push}
    {m : Nat} {record : LogRecord} (hcall : call.pushed now = .ok a)
    (hflags : record.flags = (a.stored m).flags)
    (hpayload : record.payload = (a.stored m).payload.take options.scratchBytes.toNat) :
    WholeOrFlagged call record ↔ FitsScratch options (a.stored m) := by
  rw [WholeOrFlagged, FitsScratch, hflags, hpayload]
  constructor
  · rintro (hwhole | hflag)
    · rcases call.stored_payload hcall m with hstored | hflag
      · refine .inl ?_
        rw [← hstored] at hwhole
        have hlen := congrArg List.length hwhole
        rw [List.length_take] at hlen
        omega
      · exact .inr hflag
    · exact .inr hflag
  · rintro (hfits | hflag)
    · rw [List.take_of_length_le hfits]
      exact call.stored_payload hcall m
    · exact .inr hflag

variable {P : Type u} {O : Type v} [DecidableEq P] [DecidableEq O] {options : CenterOptions}
  {nameOf : O → Name} {log : List (LogEvent P O)} {c : LogConfig P O} {rings : O → Ring}

/-- Every sink record belongs to a log call, and is whole or flagged exactly if what its ring stored
fits the scratch buffer or is flagged there. -/
theorem sink_whole_or_flagged (hrings : ∀ o, Initialized (rings o))
    (hrun : Run (Guarded LeavesRoom (LogStep options nameOf)) (.initial rings) log c) {o : O}
    {k : Nat} {record : LogRecord} (hk : (sinkFrom o log)[k]? = some record) :
    ∃ x : Claimed P, (claims (ringLog o log))[k]? = some x ∧ Logged x.push ∧
      ∀ (call : LogCall) (now : UInt64), call.pushed now = .ok x.push →
        (WholeOrFlagged call record ↔
          FitsScratch options (x.push.stored (rings o).ringMeta.maxPayload)) := by
  obtain ⟨x, hx, hlogged, hrecord⟩ := sink_claim hrings hrun hk
  refine ⟨x, hx, hlogged, ?_⟩
  intro call now hcall
  obtain rfl := hrecord call now hcall
  exact wholeOrFlagged_iff hcall rfl rfl

/-- One message of four bytes, drained with a scratch buffer of any size. -/
theorem message_run (scratchBytes : UInt32) :
    ∃ (log : List (LogEvent Bool Bool)) (c : LogConfig Bool Bool) (x : Claimed Bool),
      Run (Guarded LeavesRoom (LogStep ⟨64, scratchBytes⟩ twoNames))
        (.initial fun _ => freshRing 2 64) log c ∧
      (claims (ringLog false log))[0]? = some x ∧ x.push = ⟨2, 0, 7, [1, 2, 3, 4]⟩ ∧
      ∃ record, (sinkFrom false log)[0]? = some record ∧ record.flags = 0 ∧
        record.payload = [1, 2, 3, 4].take scratchBytes.toNat := by
  have hcall : (LogCall.text .info [1, 2, 3, 4]).pushed 7 = .ok ⟨2, 0, 7, [1, 2, 3, 4]⟩ := rfl
  have hr : Represents (freshRing 2 64) 2 48 0 0 ⟨[], 0⟩ :=
    represents_freshRing (by decide) (by decide) (by decide)
  have hnames : ([false].map twoNames).Nodup := by decide
  obtain ⟨log, linked, hrun, -, hring⟩ := opened_run (P := Bool) ⟨64, scratchBytes⟩
    (fun _ => freshRing 2 64) hnames twoNames_entry
  have hbatch : (0 : UInt32) < 64 := by decide
  obtain ⟨es, r, out, hround, -, -, hclaims, hsunk⟩ := round_run ⟨64, scratchBytes⟩ twoNames
    (p := true) (c := .opened ⟨64, scratchBytes⟩ twoNames (fun _ => freshRing 2 64) [false] linked)
    (a := ⟨twoNames false, false, false⟩) rfl rfl hbatch rfl rfl hcall hr (by decide)
  have hfull := hrun.append hround
  have hnone : sinkFrom false log = [] := by
    rw [(center_run hrun.unguard).2.2.1 false, hring]
    rfl
  obtain ⟨record, hrecord⟩ : ∃ record, (sinkFrom false (log ++ es))[0]? = some record := by
    rw [sinkFrom_append, hnone, hsunk]
    exact ⟨_, rfl⟩
  obtain ⟨x, hx, -, hshape⟩ := sink_claim (fun _ => initialized_freshRing) hfull hrecord
  have hpush : x.push = ⟨2, 0, 7, [1, 2, 3, 4]⟩ := by
    rw [ringLog_append, hring, List.nil_append] at hx
    have hmap := congrArg (fun l => l[0]?) hclaims
    simp only [List.getElem?_map, hx] at hmap
    simpa using hmap
  obtain rfl := hshape (.text .info [1, 2, 3, 4]) 7 (by rw [hpush]; exact hcall)
  refine ⟨_, _, x, hfull, hx, hpush, _, hrecord, ?_, ?_⟩
  · rw [hpush]
    rfl
  · rw [hpush]
    rfl

theorem sink_whole_or_flagged_fits : ∃ (log : List (LogEvent Bool Bool)) (c : LogConfig Bool Bool)
    (record : LogRecord), (∀ _ : Bool, Initialized (freshRing 2 64)) ∧
      Run (Guarded LeavesRoom (LogStep ⟨64, 4⟩ twoNames)) (.initial fun _ => freshRing 2 64) log c ∧
      (sinkFrom false log)[0]? = some record ∧
      ∃ x : Claimed Bool, (claims (ringLog false log))[0]? = some x ∧ Logged x.push ∧
        ∀ (call : LogCall) (now : UInt64), call.pushed now = .ok x.push →
          (WholeOrFlagged call record ↔ FitsScratch ⟨64, 4⟩ (x.push.stored 48)) := by
  obtain ⟨log, c, -, hrun, -, -, record, hrecord, -⟩ := message_run 4
  exact ⟨log, c, record, fun _ => initialized_freshRing, hrun, hrecord,
    sink_whole_or_flagged (fun _ => initialized_freshRing) hrun hrecord⟩

/-- A scratch buffer of two bytes cuts a message of four, and nothing says so. -/
theorem scratch_cuts_silently : ∃ (log : List (LogEvent Bool Bool)) (c : LogConfig Bool Bool)
    (x : Claimed Bool) (record : LogRecord),
      Run (Guarded LeavesRoom (LogStep ⟨64, 2⟩ twoNames)) (.initial fun _ => freshRing 2 64) log c ∧
      (claims (ringLog false log))[0]? = some x ∧ (sinkFrom false log)[0]? = some record ∧
      (LogCall.text .info [1, 2, 3, 4]).pushed 7 = .ok x.push ∧
      ¬ WholeOrFlagged (.text .info [1, 2, 3, 4]) record := by
  obtain ⟨log, c, x, hrun, hx, hpush, record, hrecord, hflags, hpayload⟩ := message_run 2
  refine ⟨log, c, x, record, hrun, hx, hrecord, by rw [hpush]; rfl, ?_⟩
  rw [WholeOrFlagged, hflags, hpayload]
  decide

end Shmfx
