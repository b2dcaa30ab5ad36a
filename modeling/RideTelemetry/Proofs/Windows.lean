import RideTelemetry.Proofs.Cropping
import RideTelemetry.Proofs.Doubles

/-! The window that a time range stands for. Times become samples through signed words of 64 bits,
of which the largest also stands for the sample behind it. A session with fewer than `2 ^ 63`
samples sees nothing of that: its window lies between the floors of the two products of time and
sample rate, or there is none. -/

namespace RideTelemetry

namespace Selection

section Words

variable {sample later : Int}

/-- A sample that a word is made of. -/
def InReach (sample : Int) : Prop := -(twoTo 63 : Int) ≤ sample ∧ sample ≤ twoTo 63

instance (sample : Int) : Decidable (InReach sample) := inferInstanceAs (Decidable (_ ∧ _))

theorem toInt_word (reach : InReach sample) :
    (Int64.ofIntClamp sample).toInt = min sample (twoTo 63 - 1) := by
  have lowest : Int64.minValue.toInt = -(twoTo 63 : Int) := by decide
  have highest : Int64.maxValue.toInt = (twoTo 63 : Int) - 1 := by decide
  obtain ⟨above, below⟩ := reach
  rcases lt_or_eq_of_le below with inside | edge
  · rw [Int64.toInt_ofIntClamp (by omega) (by omega)]
    omega
  · rw [edge]
    decide

theorem nonneg_word_iff (reach : InReach sample) : 0 ≤ Int64.ofIntClamp sample ↔ 0 ≤ sample := by
  have positive : (0 : Int) < twoTo 63 := by decide
  rw [Int64.le_iff_toInt_le, toInt_word reach, Int64.toInt_zero]
  omega

private theorem word_lt_word_iff (reach : InReach sample) (reach' : InReach later) :
    Int64.ofIntClamp sample < Int64.ofIntClamp later ↔
      sample < later ∧ sample < (twoTo 63 : Int) - 1 := by
  rw [Int64.lt_iff_toInt_lt, toInt_word reach, toInt_word reach']
  omega

theorem sampleNumber_word (reach : InReach sample) (nonneg : 0 ≤ sample) :
    sampleNumber (.ofIntClamp sample) = min sample.toNat (twoTo 63 - 1) := by
  have word : 0 ≤ Int64.ofIntClamp sample := (nonneg_word_iff reach).mpr nonneg
  rw [sampleNumber, Int64.toNat_toUInt64_of_le word, Int64.toNatClampNeg, toInt_word reach]
  have positive : 0 < twoTo 63 := by decide
  omega

end Words

variable {α : Type} [Scalar α]

/-- The floor of a bound of a range times the sample rate. -/
def floorAt? (bound : Option α) (sampleRate : Nat) : Option Int :=
  bound.bind fun seconds => Scalar.floor? (seconds * Scalar.ofNat sampleRate)

theorem bind_sampleAt? (bound : Option α) (sampleRate : Nat) :
    (bound.bind fun seconds => sampleAt? seconds sampleRate) =
      (floorAt? bound sampleRate).bind fun sample =>
        if InReach sample then some (.ofIntClamp sample) else none := by
  cases bound with
  | none => rfl
  | some seconds => rfl

/-- What two words select, if they are given. -/
def ofWords (bounds : Option (Int64 × Int64)) (samples : Nat) : Selection :=
  match bounds with
  | some (start, stop) => .window (sampleNumber start) (sampleNumber stop)
  | none => .whole samples

private theorem ofSeconds_eq_ofWords (range : TimeRange α) (sampleRate samples : Nat) :
    ofSeconds range sampleRate samples =
      ofWords
        ((range.start.bind fun seconds => sampleAt? seconds sampleRate).bind fun start =>
          (range.stop.bind fun seconds => sampleAt? seconds sampleRate).bind fun stop =>
            if 0 ≤ start ∧ start < stop ∧ sampleNumber stop < samples then some (start, stop)
            else none)
        samples := by
  simp only [ofSeconds, Option.bind_eq_bind, Option.bind_assoc]
  rfl

/-- Two samples in reach select the window between them or nothing. -/
theorem ofWords_of_reach {first last : Int} {samples : Nat} (few : samples < twoTo 63)
    (reach : InReach first) (reach' : InReach last) :
    ofWords
        (if 0 ≤ Int64.ofIntClamp first ∧ Int64.ofIntClamp first < Int64.ofIntClamp last ∧
            sampleNumber (.ofIntClamp last) < samples then
          some (.ofIntClamp first, .ofIntClamp last)
        else none)
        samples =
      if 0 ≤ first ∧ first < last ∧ last < samples then .window first.toNat last.toNat
      else .whole samples := by
  simp only [nonneg_word_iff reach, word_lt_word_iff reach reach']
  by_cases ordered : 0 ≤ first ∧ first < last
  · have number := sampleNumber_word reach' (by omega)
    by_cases inside : last < samples
    · have start : sampleNumber (.ofIntClamp first) = first.toNat := by
        rw [sampleNumber_word reach ordered.1]
        omega
      have stop : sampleNumber (.ofIntClamp last) = last.toNat := by omega
      rw [if_pos (by omega), if_pos ⟨ordered.1, ordered.2, inside⟩, ofWords, start, stop]
    · rw [if_neg (by omega), if_neg (by omega), ofWords]
  · rw [if_neg (by omega), if_neg (by omega), ofWords]

/-- With fewer than `2 ^ 63` samples only the floors count. -/
theorem ofSeconds_of_few {samples : Nat} (few : samples < twoTo 63) (range : TimeRange α)
    (sampleRate : Nat) :
    ofSeconds range sampleRate samples =
      match floorAt? range.start sampleRate, floorAt? range.stop sampleRate with
      | some first, some last =>
        if 0 ≤ first ∧ first < last ∧ last < samples then .window first.toNat last.toNat
        else .whole samples
      | _, _ => .whole samples := by
  rw [ofSeconds_eq_ofWords, bind_sampleAt?, bind_sampleAt?]
  cases floorAt? range.start sampleRate with
  | none => rfl
  | some first =>
    cases floorAt? range.stop sampleRate with
    | none => by_cases reach : InReach first <;> simp [reach, ofWords]
    | some last =>
      by_cases reach : InReach first
      · by_cases reach' : InReach last
        · simp only [Option.bind_some, reach, reach', ↓reduceIte]
          exact ofWords_of_reach few reach reach'
        · have outside : ¬ (0 ≤ first ∧ first < last ∧ last < samples) := by
            intro valid
            apply reach'
            constructor <;> omega
          simp only [Option.bind_some, reach, reach', outside, ↓reduceIte, Option.bind_none, ofWords]
      · have outside : ¬ (0 ≤ first ∧ first < last ∧ last < samples) := by
          intro valid
          apply reach
          constructor <;> omega
        simp only [Option.bind_some, reach, outside, ↓reduceIte, Option.bind_none, ofWords]

/-- The largest word stands for two samples: here the second bound falls on sample `2 ^ 63`. -/
example : ofSeconds (⟨some (.ofNat 0), some (.ofNat (2 ^ 63))⟩ : TimeRange Double) 1
    (2 ^ 63 + 1) = .window 0 (2 ^ 63 - 1) := by
  decide +kernel

end Selection

namespace Record

/-- A bound falls on a sample: it is given, its product with the sample rate is a finite double, and
the sample is the floor of the rational number that this double is. -/
def FallsOn (bound : Option Double) (sampleRate : Nat) (sample : Int) : Prop :=
  ∃ seconds : Double, bound = some seconds ∧
    Scalar.isFinite (seconds * Scalar.ofNat sampleRate) = true ∧
    ∃ product ∈ (seconds * Scalar.ofNat sampleRate).rational?, sample = ⌊product⌋

theorem fallsOn_iff {bound : Option Double} {sampleRate : Nat} {sample : Int} :
    FallsOn bound sampleRate sample ↔ Selection.floorAt? bound sampleRate = some sample := by
  simp only [Selection.floorAt?, Option.bind_eq_some_iff, Double.floor?_eq, Option.map_eq_some_iff]
  constructor
  · rintro ⟨seconds, given, _, product, exact, floor⟩
    exact ⟨seconds, given, product, exact, floor.symm⟩
  · rintro ⟨seconds, given, product, exact, floor⟩
    refine ⟨seconds, given, ?_, product, exact, floor.symm⟩
    rw [← Double.rational?_isSome, exact, Option.isSome_some]

/-- Both bounds of a range fall on samples of the session, the first before the second. -/
structure Spans (session : Record Double) (range : TimeRange Double) (first last : Int) : Prop where
  start : FallsOn range.start session.sampleRate first
  stop : FallsOn range.stop session.sampleRate last
  nonneg : 0 ≤ first
  ordered : first < last
  inside : last < session.sampleCount

private theorem Spans.select_eq {session : Record Double} {range : TimeRange Double}
    {first last : Int} (few : session.sampleCount < twoTo 63)
    (spans : session.Spans range first last) :
    session.select range = .window first.toNat last.toNat := by
  rw [select, Selection.ofSeconds_of_few few, fallsOn_iff.mp spans.start,
    fallsOn_iff.mp spans.stop]
  exact if_pos ⟨spans.nonneg, spans.ordered, spans.inside⟩

/-- A range that spans no samples selects the whole session. -/
theorem select_eq_whole {session : Record Double} {range : TimeRange Double}
    (few : session.sampleCount < twoTo 63)
    (invalid : ¬ ∃ first last, session.Spans range first last) :
    session.select range = .whole session.sampleCount := by
  rw [select, Selection.ofSeconds_of_few few]
  split
  · rename_i first last start stop
    apply if_neg
    rintro ⟨nonneg, ordered, inside⟩
    exact invalid ⟨first, last, fallsOn_iff.mpr start, fallsOn_iff.mpr stop, nonneg, ordered, inside⟩
  · rfl

/-- A valid range selects the window between its two samples, and both wheels and the balance are
analysed over that window. Under any other range the session is analysed as without one. -/
theorem analyse_span_or_whole (session : Record Double) (few : session.sampleCount < 2 ^ 63)
    (range : TimeRange Double) (threshold : Double) :
    (∀ first last, session.Spans range first last →
      let window := Selection.window first.toNat last.toNat
      session.select range = window ∧
        session.analyse range threshold =
          { front := session.wheelAnalysis .front window threshold
            rear := session.wheelAnalysis .rear window threshold
            balance := session.balanceAnalysis window }) ∧
    ((¬ ∃ first last, session.Spans range first last) →
      session.analyse range threshold = session.analyse ⟨none, none⟩ threshold) := by
  constructor
  · intro first last spans window
    have selected : session.select range = window := spans.select_eq few
    refine ⟨selected, ?_⟩
    simp only [analyse, selected]
  · intro invalid
    simp only [analyse, select_eq_whole few invalid, select_without_range]

/-- On a ride of six samples, one a second: a window from a fraction of a second on, and a range
that ends at no number. -/
theorem analyse_span_or_whole_uneven :
    unevenRide.sampleCount < 2 ^ 63 ∧
      unevenRide.Spans ⟨some (.ofDecimal 15 (-1)), some (.ofNat 5)⟩ 1 5 ∧
      unevenRide.select ⟨some (.ofDecimal 15 (-1)), some (.ofNat 5)⟩ = .window 1 5 ∧
      (unevenRide.analyse ⟨some (.ofDecimal 15 (-1)), some (.ofNat 5)⟩ (.ofNat 200)).balance =
        unevenRide.balanceAnalysis (.window 1 5) ∧
      (¬ ∃ first last, unevenRide.Spans ⟨some (.ofNat 1), some .notANumber⟩ first last) ∧
      unevenRide.analyse ⟨some (.ofNat 1), some .notANumber⟩ (.ofNat 200) =
        unevenRide.analyse ⟨none, none⟩ (.ofNat 200) := by
  have few : unevenRide.sampleCount < 2 ^ 63 := by decide
  have spans : unevenRide.Spans ⟨some (.ofDecimal 15 (-1)), some (.ofNat 5)⟩ 1 5 := {
    start := fallsOn_iff.mpr (by decide +kernel)
    stop := fallsOn_iff.mpr (by decide +kernel)
    nonneg := by decide
    ordered := by decide
    inside := by decide }
  have invalid : ¬ ∃ first last,
      unevenRide.Spans ⟨some (.ofNat 1), some .notANumber⟩ first last := by
    rintro ⟨first, last, spans⟩
    have missing : Selection.floorAt? (some Double.notANumber) unevenRide.sampleRate = none := by
      decide +kernel
    exact Option.some_ne_none last ((fallsOn_iff.mp spans.stop).symm.trans missing)
  obtain ⟨selected, analysed⟩ := (analyse_span_or_whole unevenRide few
    ⟨some (.ofDecimal 15 (-1)), some (.ofNat 5)⟩ (.ofNat 200)).1 1 5 spans
  have whole := (analyse_span_or_whole unevenRide few
    ⟨some (.ofNat 1), some .notANumber⟩ (.ofNat 200)).2 invalid
  exact ⟨few, spans, selected, congrArg SessionAnalysis.balance analysed, invalid, whole⟩

end Record

end RideTelemetry
