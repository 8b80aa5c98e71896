import SequenceChart.Engine

/-!
# The phases of a reading

A source is made ready, its settings are layered, and its code is read. Each phase runs only if the
one before it succeeds, and only the last one touches the chart.
-/

namespace SequenceChart

namespace Engine

variable {engine : Engine} {chart left : Chart} {text : String}

theorem settingsFor_eq_error {source : Source} {error : Error}
    (hsettings : engine.settingsFor source = .error error) : ∃ fault, error = .setting fault := by
  unfold settingsFor at hsettings
  split at hsettings
  · exact nomatch hsettings
  · exact ⟨_, (Except.error.inj hsettings).symm⟩

/-- A reading fails in the source, in the settings or in the code, or it succeeds. -/
theorem parseInto_cases (engine : Engine) (chart : Chart) (text : String) :
    (∃ fault, engine.parseInto chart text = (.empty, .error (.source fault))) ∨
      (∃ fault, engine.parseInto chart text = (.empty, .error (.setting fault))) ∨
      ∃ source settings left, Source.read text = .ok source ∧
        engine.settingsFor source = .ok settings ∧
        ((∃ error, (startChart settings source.title).readCode source.code source.switches =
            (left, some error) ∧
            engine.parseInto chart text = (left, .error (.reading error))) ∨
          (startChart settings source.title).readCode source.code source.switches =
            (left, none) ∧
            engine.parseInto chart text = (left, .ok (metadataOf left))) := by
  cases hread : Source.read text with
  | error fault =>
      have hphase : engine.parseInto chart text = (chart.clear, .error (.source fault)) := by
        simp only [parseInto, hread]
      exact .inl ⟨fault, hphase⟩
  | ok source =>
      cases hsettings : engine.settingsFor source with
      | error error =>
          obtain ⟨fault, rfl⟩ := settingsFor_eq_error hsettings
          have hphase : engine.parseInto chart text = (chart.clear, .error (.setting fault)) := by
            simp only [parseInto, hread, hsettings]
          exact .inr (.inl ⟨fault, hphase⟩)
      | ok settings =>
          cases hcode : (startChart settings source.title).readCode source.code source.switches with
          | mk left fault =>
              refine .inr (.inr ⟨source, settings, left, rfl, hsettings, ?_⟩)
              cases fault with
              | some error =>
                  exact .inl ⟨error, hcode, by simp only [parseInto, hread, hsettings, hcode]⟩
              | none => exact .inr ⟨hcode, by simp only [parseInto, hread, hsettings, hcode]⟩

theorem parseInto_eq_ok {metadata : Metadata}
    (hparse : engine.parseInto chart text = (left, .ok metadata)) :
    ∃ source settings, Source.read text = .ok source ∧ engine.settingsFor source = .ok settings ∧
      (startChart settings source.title).readCode source.code source.switches = (left, none) ∧
      metadata = metadataOf left := by
  rcases parseInto_cases engine chart text with
    ⟨fault, hphase⟩ | ⟨fault, hphase⟩ |
    ⟨source, settings, last, hread, hsettings, ⟨error, hcode, hphase⟩ | ⟨hcode, hphase⟩⟩
  · exact nomatch hparse.symm.trans hphase
  · exact nomatch hparse.symm.trans hphase
  · exact nomatch hparse.symm.trans hphase
  · obtain ⟨rfl, hmetadata⟩ := Prod.mk.inj (hparse.symm.trans hphase)
    exact ⟨source, settings, hread, hsettings, hcode, Except.ok.inj hmetadata⟩

theorem parseInto_eq_reading {error : ReadingError}
    (hparse : engine.parseInto chart text = (left, .error (.reading error))) :
    ∃ source settings, Source.read text = .ok source ∧ engine.settingsFor source = .ok settings ∧
      (startChart settings source.title).readCode source.code source.switches =
        (left, some error) := by
  rcases parseInto_cases engine chart text with
    ⟨fault, hphase⟩ | ⟨fault, hphase⟩ |
    ⟨source, settings, last, hread, hsettings, ⟨other, hcode, hphase⟩ | ⟨hcode, hphase⟩⟩
  · exact nomatch hparse.symm.trans hphase
  · exact nomatch hparse.symm.trans hphase
  · obtain ⟨rfl, herror⟩ := Prod.mk.inj (hparse.symm.trans hphase)
    rw [Error.reading.inj (Except.error.inj herror)]
    exact ⟨source, settings, hread, hsettings, hcode⟩
  · exact nomatch hparse.symm.trans hphase

theorem parseInto_of_readCode {source : Source} {settings : Settings Float} {error : ReadingError}
    (hread : Source.read text = .ok source) (hsettings : engine.settingsFor source = .ok settings)
    (hcode : ((startChart settings source.title).readCode source.code source.switches).2 =
      some error) (chart : Chart) :
    (engine.parseInto chart text).2 = .error (.reading error) := by
  simp only [parseInto, hread, hsettings]
  cases hleft : (startChart settings source.title).readCode source.code source.switches with
  | mk left fault =>
      rw [hleft] at hcode
      cases hcode
      rfl

theorem startChart_events (settings : Settings Float) (title : Option String) :
    (startChart settings title).diagram.events = [] := by
  unfold startChart
  dsimp only
  split <;> rfl

theorem parse_eq_ok {parsed : ParsedDiagram} (hparse : engine.parse text = .ok parsed) :
    engine.parseInto .empty text = (parsed.chart, .ok parsed.metadata) := by
  unfold parse at hparse
  split at hparse
  · rename_i hinto
    rw [hinto, ← Except.ok.inj hparse]
  · exact nomatch hparse

end Engine

end SequenceChart
