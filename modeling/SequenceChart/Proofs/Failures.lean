import SequenceChart.Proofs.Phases
import SequenceChart.Proofs.Truncation

/-!
# What a failed reading leaves

Settings that fail leave an empty chart. A statement that fails leaves what the code before it
leaves; only a message whose activation cannot end is sent before it fails.
-/

namespace SequenceChart

namespace Session

variable {session next last : Session} {offset : Nat} {fault : Fault}

theorem deactivate_eq_some {actor : String}
    (hdeactivate : session.deactivate actor = (next, some fault)) :
    fault = .inactive actor ∧ next = session := by
  unfold deactivate at hdeactivate
  split at hdeactivate
  · cases hdeactivate
  · obtain ⟨rfl, hfault⟩ := Prod.mk.inj hdeactivate
    exact ⟨(Option.some.inj hfault).symm, rfl⟩

/-- What a statement that fails has done before it fails. -/
theorem carryOut_eq_some {statement : Statement}
    (hcarry : session.carryOut offset statement = (next, some fault)) :
    ((∃ complaint, fault = .complaint complaint) ∧ next = session) ∨
      ∃ actor, fault = .inactive actor ∧
        ((statement = .deactivate actor ∧ next = session) ∨
          ∃ target kind text, statement = .message actor target kind (some .stop) text ∧
            next = { session with chart := session.chart.addMessage actor target kind text }) := by
  cases statement with
  | deactivate actor =>
      obtain ⟨rfl, rfl⟩ := deactivate_eq_some hcarry
      exact .inr ⟨actor, rfl, .inl ⟨rfl, rfl⟩⟩
  | divider kind label =>
      rw [carryOut, divideBlock] at hcarry
      split at hcarry
      · cases hcarry
      · obtain ⟨rfl, hfault⟩ := Prod.mk.inj hcarry
        exact .inl ⟨⟨_, (Option.some.inj hfault).symm⟩, rfl⟩
  | closing =>
      rw [carryOut, closeBlock] at hcarry
      split at hcarry
      · obtain ⟨rfl, hfault⟩ := Prod.mk.inj hcarry
        exact .inl ⟨⟨_, (Option.some.inj hfault).symm⟩, rfl⟩
      · cases hcarry
  | message source target kind edge text =>
      rcases edge with _ | _ | _
      · cases hcarry
      · cases hcarry
      · obtain ⟨rfl, rfl⟩ := deactivate_eq_some hcarry
        exact .inr ⟨source, rfl, .inr ⟨target, kind, text, rfl, rfl⟩⟩
  | _ => cases hcarry

theorem step_eq_some {item : Nat × Statement}
    (hstep : session.step item = (last, some (offset, fault))) :
    item.1 = offset ∧ (session.reach item.1).carryOut item.1 item.2 = (last, some fault) := by
  unfold step at hstep
  cases hcarry : (session.reach item.1).carryOut item.1 item.2 with
  | mk next reported =>
      rw [hcarry] at hstep
      obtain ⟨rfl, hfault⟩ := Prod.mk.inj hstep
      obtain ⟨found, hfound, heq⟩ := Option.map_eq_some_iff.mp hfault
      obtain ⟨hoffset, rfl⟩ := Prod.mk.inj heq
      exact ⟨hoffset, by rw [hfound]⟩

theorem run_eq_some {script : Script} (hrun : session.run script = (last, some (offset, fault))) :
    (∃ mid, runSteps step (session.reach script.header) script.statements = (mid, none) ∧
        mid.finish script.ending = (last, some (offset, fault))) ∨
      ∃ earlier statement later mid, script.statements = earlier ++ (offset, statement) :: later ∧
        runSteps step (session.reach script.header) earlier = (mid, none) ∧
        (mid.reach offset).carryOut offset statement = (last, some fault) := by
  unfold run at hrun
  split at hrun
  · rename_i mid hsteps
    exact .inl ⟨mid, hsteps, hrun⟩
  · rename_i hsteps
    rw [hrun] at hsteps
    obtain ⟨earlier, ⟨place, statement⟩, later, mid, hitems, hearlier, hstep⟩ :=
      runSteps_eq_some hsteps
    obtain ⟨rfl, hcarry⟩ := step_eq_some hstep
    exact .inr ⟨earlier, statement, later, mid, hitems, hearlier, hcarry⟩

/-- A run that has carried out all statements fails at an open block or behind the statements. -/
theorem finish_eq_some {ending : Ending}
    (hfinish : session.finish ending = (last, some (offset, fault))) :
    (∃ kind, fault = .complaint (.unclosedBlock kind)) ∨
      ∃ complaint, fault = .complaint complaint ∧
        ((ending = .unreadable offset complaint ∧ last = session.reach offset) ∨
          ending = .cluttered offset complaint) := by
  cases ending with
  | complete stop =>
      obtain ⟨⟨kind, start⟩, -, hunclosed⟩ :=
        Option.map_eq_some_iff.mp (Prod.mk.inj hfinish).2
      exact .inl ⟨kind, (Prod.mk.inj hunclosed).2.symm⟩
  | unreadable stop complaint =>
      cases hfinish
      exact .inr ⟨complaint, rfl, .inl ⟨rfl, rfl⟩⟩
  | cluttered stop complaint =>
      cases hfinish
      exact .inr ⟨complaint, rfl, .inr rfl⟩

theorem run_of_complete {script : Script} {mid : Session}
    (hsteps : runSteps step (session.reach script.header) script.statements = (mid, none))
    (hending : script.ending = .complete offset) : (session.run script).1 = mid.reach offset := by
  rw [run, hsteps, hending]
  rfl

end Session

namespace Chart

variable {chart : Chart} {code : String} {switches : List WrapSwitch} {error : ReadingError}

/-- What the code leaves in a chart, whether it is read to its end or not. -/
def leftBy (chart : Chart) (code : String) (switches : List WrapSwitch) : Chart :=
  (chart.readCode code switches).1

theorem leftBy_eq (chart : Chart) (code : String) (switches : List WrapSwitch) :
    chart.leftBy code switches =
      (Session.run ⟨chart, switches, []⟩ (Script.read code.toList)).1.chart := rfl

theorem readCode_eq_some (hread : (chart.readCode code switches).2 = some error) :
    ∃ last offset, Session.run ⟨chart, switches, []⟩ (Script.read code.toList) =
        (last, some (offset, error.fault)) ∧
      error.position = .ofOffset code.toList offset := by
  obtain ⟨⟨offset, fault⟩, hfault, heq⟩ := Option.map_eq_some_iff.mp hread
  refine ⟨_, offset, Prod.ext rfl (hfault.trans ?_), ?_⟩
  · rw [← heq]
  · rw [← heq]

theorem position_before {before after : List Char} {position : Position}
    (hcode : code.toList = before ++ after)
    (hposition : position = .ofOffset code.toList (byteLength before)) :
    position = .after before := by
  rw [hposition, hcode, Position.ofOffset, textBefore_byteLength_append]

/-- A complaint about a statement comes before the statement has done anything. -/
theorem leftBy_of_complaint {complaint : Complaint}
    (hread : (chart.readCode code switches).2 = some error)
    (hfault : error.fault = .complaint complaint)
    (hexpected : ∀ excerpt, complaint ≠ .unexpected excerpt)
    (hclosed : ∀ kind, complaint ≠ .unclosedBlock kind) :
    ∃ before after, code.toList = before ++ after ∧ error.position = .after before ∧
      chart.leftBy code switches = chart.leftBy (.ofList before) switches := by
  obtain ⟨last, offset, hrun, hposition⟩ := readCode_eq_some hread
  rw [hfault] at hrun
  simp only [leftBy_eq, hrun, String.toList_ofList]
  rcases Session.run_eq_some hrun with ⟨mid, hsteps, hfinish⟩ |
    ⟨earlier, statement, later, mid, hitems, hsteps, hcarry⟩
  · rcases Session.finish_eq_some hfinish with ⟨kind, hunclosed⟩ |
      ⟨other, hother, ⟨hending, hlast⟩ | hending⟩
    · exact absurd (Fault.complaint.inj hunclosed) (hclosed kind)
    · obtain ⟨before, after, hcode, rfl, hbefore⟩ := Script.read_before_unreadable hending
      refine ⟨before, after, hcode, position_before hcode hposition, ?_⟩
      rcases hbefore with hbefore | hbefore
      · rw [hbefore, hrun]
      · rw [Session.run_of_complete (by rw [hbefore]; exact hsteps) (by rw [hbefore]), hlast]
    · obtain ⟨excerpt, rfl⟩ := Script.unexpected_of_cluttered hending
      exact absurd (Fault.complaint.inj hother) (hexpected excerpt)
  · obtain ⟨before, after, hcode, rfl, hbefore, -⟩ := Script.read_before_statement hitems
    refine ⟨before, after, hcode, position_before hcode hposition, ?_⟩
    rw [Session.run_of_complete (by rw [hbefore]; exact hsteps) (by rw [hbefore])]
    rcases Session.carryOut_eq_some hcarry with ⟨-, hlast⟩ | ⟨actor, hactor, -⟩
    · rw [hlast]
    · cases hactor

/-- An activation that cannot end is found when nothing of the statement, or only its message, has
been carried out. -/
theorem leftBy_of_inactive {actor : String} (hread : (chart.readCode code switches).2 = some error)
    (hfault : error.fault = .inactive actor) :
    ∃ before after statement later, code.toList = before ++ after ∧
      error.position = .after before ∧
      Reading.statement ⟨after, byteLength before⟩ = .ok (statement, later) ∧
      ((statement = .deactivate actor ∧
          chart.leftBy code switches = chart.leftBy (.ofList before) switches) ∨
        ∃ target kind text, statement = .message actor target kind (some .stop) text ∧
          chart.leftBy code switches =
            (chart.leftBy (.ofList before) switches).addMessage actor target kind text) := by
  obtain ⟨last, offset, hrun, hposition⟩ := readCode_eq_some hread
  rw [hfault] at hrun
  simp only [leftBy_eq, hrun, String.toList_ofList]
  rcases Session.run_eq_some hrun with ⟨mid, hsteps, hfinish⟩ |
    ⟨earlier, statement, later, mid, hitems, hsteps, hcarry⟩
  · rcases Session.finish_eq_some hfinish with ⟨kind, hunclosed⟩ | ⟨other, hother, -⟩
    · cases hunclosed
    · cases hother
  · obtain ⟨before, after, hcode, rfl, hbefore, stop, hstatement⟩ :=
      Script.read_before_statement hitems
    refine ⟨before, after, statement, stop, hcode, position_before hcode hposition,
      hstatement, ?_⟩
    rw [Session.run_of_complete (by rw [hbefore]; exact hsteps) (by rw [hbefore])]
    rcases Session.carryOut_eq_some hcarry with ⟨⟨complaint, hcomplaint⟩, -⟩ |
      ⟨other, hactor, ⟨hdeactivate, hlast⟩ | ⟨target, kind, text, hmessage, hlast⟩⟩
    · cases hcomplaint
    · cases hactor
      exact .inl ⟨hdeactivate, by rw [hlast]⟩
    · cases hactor
      exact .inr ⟨target, kind, text, hmessage, by rw [hlast]⟩

end Chart

/-- After an error of the settings the chart is empty. After an error of the code it is what the
code before the error leaves, and with it a message whose activation cannot end. -/
theorem Engine.state_after_error :
    (∀ (engine : Engine) (chart : Chart) (text : String) (error : Error),
      (engine.parseInto chart text).2 = .error error →
        ((∃ fault, error = .source fault) ∨ ∃ fault, error = .setting fault) →
          (engine.parseInto chart text).1 = .empty) ∧
      ∀ (chart : Chart) (code : String) (switches : List WrapSwitch) (error : ReadingError),
        (chart.readCode code switches).2 = some error →
          (∀ complaint, error.fault = .complaint complaint →
            (∀ excerpt, complaint ≠ .unexpected excerpt) →
            (∀ kind, complaint ≠ .unclosedBlock kind) →
              ∃ before after, code.toList = before ++ after ∧ error.position = .after before ∧
                chart.leftBy code switches = chart.leftBy (.ofList before) switches) ∧
          ∀ actor, error.fault = .inactive actor →
            ∃ before after statement later, code.toList = before ++ after ∧
              error.position = .after before ∧
              Reading.statement ⟨after, byteLength before⟩ = .ok (statement, later) ∧
              ((statement = .deactivate actor ∧
                  chart.leftBy code switches = chart.leftBy (.ofList before) switches) ∨
                ∃ target kind text, statement = .message actor target kind (some .stop) text ∧
                  chart.leftBy code switches =
                    (chart.leftBy (.ofList before) switches).addMessage actor target kind
                      text) := by
  refine ⟨?_, ?_⟩
  · intro engine chart text error hparse hsettings
    rcases parseInto_cases engine chart text with
      ⟨fault, hphase⟩ | ⟨fault, hphase⟩ |
      ⟨source, settings, left, -, -, ⟨other, -, hphase⟩ | ⟨-, hphase⟩⟩
    · rw [hphase]
    · rw [hphase]
    · rw [hphase] at hparse
      cases hparse
      rcases hsettings with ⟨fault, hfault⟩ | ⟨fault, hfault⟩ <;> cases hfault
    · rw [hphase] at hparse
      cases hparse
  · intro chart code switches error hread
    exact ⟨fun complaint hfault hexpected hclosed =>
      Chart.leftBy_of_complaint hread hfault hexpected hclosed,
      fun actor hfault => Chart.leftBy_of_inactive hread hfault⟩

theorem Source.read_unclosed : Source.read "%%\x7binit" = .error .unterminatedDirective := by
  have hcut : FrontMatter.cut? (unifyLineBreaks "%%\x7binit".toList) = none := by decide +kernel
  have hsplit : Segment.split (unifyLineBreaks "%%\x7binit".toList) =
      [.plain [], .unclosed "init".toList] := by decide +kernel
  simp only [Source.read, FrontMatter.split, hcut]
  change (readDirectives 0 (Segment.split _) >>= _) = _
  rw [hsplit]
  rfl

def strayElse : String := "sequenceDiagram\nA->>B: hi\nelse"

def strayStop : String := "sequenceDiagram\nA->>-B: hi"

theorem Engine.state_after_stray_text :
    ((standard.parseInto (Chart.empty.setTitle "old") "%%\x7binit").2 =
        .error (.source .unterminatedDirective) ∧
      (standard.parseInto (Chart.empty.setTitle "old") "%%\x7binit").1 = .empty) ∧
    ((Chart.empty.readCode strayElse []).2 =
        some ⟨⟨3, 1⟩, .complaint (.outsideBlock .altElse)⟩ ∧
      ∃ before after, strayElse.toList = before ++ after ∧ ⟨3, 1⟩ = Position.after before ∧
        Chart.empty.leftBy strayElse [] = Chart.empty.leftBy (.ofList before) []) ∧
    (Chart.empty.readCode strayStop []).2 = some ⟨⟨2, 1⟩, .inactive "A"⟩ ∧
      ∃ before after statement later, strayStop.toList = before ++ after ∧
        ⟨2, 1⟩ = Position.after before ∧
        Reading.statement ⟨after, byteLength before⟩ = .ok (statement, later) ∧
        ((statement = .deactivate "A" ∧
            Chart.empty.leftBy strayStop [] = Chart.empty.leftBy (.ofList before) []) ∨
          ∃ target kind text, statement = .message "A" target kind (some .stop) text ∧
            Chart.empty.leftBy strayStop [] =
              (Chart.empty.leftBy (.ofList before) []).addMessage "A" target kind text) := by
  have hsource : (standard.parseInto (Chart.empty.setTitle "old") "%%\x7binit").2 =
      .error (.source .unterminatedDirective) := by
    simp only [parseInto, Source.read_unclosed]
  have helse : (Chart.empty.readCode strayElse []).2 =
      some ⟨⟨3, 1⟩, .complaint (.outsideBlock .altElse)⟩ := by decide +kernel
  have hstop : (Chart.empty.readCode strayStop []).2 = some ⟨⟨2, 1⟩, .inactive "A"⟩ := by
    decide +kernel
  refine ⟨⟨hsource, ?_⟩, ⟨helse, ?_⟩, hstop, ?_⟩
  · exact state_after_error.1 _ _ _ _ hsource (.inl ⟨_, rfl⟩)
  · refine (state_after_error.2 _ _ _ _ helse).1 _ rfl ?_ ?_
    · intro excerpt hexpected
      cases hexpected
    · intro kind hclosed
      cases hclosed
  · exact (state_after_error.2 _ _ _ _ hstop).2 "A" rfl

end SequenceChart
