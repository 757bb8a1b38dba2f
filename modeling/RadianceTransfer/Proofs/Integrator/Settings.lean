import RadianceTransfer.Integrator.Compute
import RadianceTransfer.Proofs.Outcome

/-!
# The whole numbers of the settings

A setting that is a whole number is read, compared with its range, and kept in a word of 32 bits
(`PropertyList.checked`). What is out of range is reported, whatever else the properties say: no
reading breaks a requirement, so the first one that fails reports why.

The range of the order and that of the number of samples lie in the word, so these two are kept as
they are. The number of workers and the bounce count are only compared with zero. Of them the word
keeps the remainder by `2 ^ 32`, and a bounce count of `2 ^ 32` is kept as none at all.

## Main statements

* `Settings.reads_of_ofProperties`: settings hold what was read.
* `Settings.exists_report_of_ofProperties`: a reading that fails is reported.
* `Integrator.ofProperties_integers`: which whole numbers are accepted, and what is kept of them.
-/

namespace RadianceTransfer

/-! ### Computations that report -/

namespace Outcome

variable {β γ : Type}

/-- The computation breaks no requirement: it returns or reports. -/
def Answers (o : Outcome β) : Prop :=
  (∃ x, o = .ok x) ∨ ∃ e, o = report e

/-- If the first of two computations answers and the second one reports after any value of it, then
together they report. -/
theorem Answers.exists_report {o : Outcome β} {f : β → Outcome γ} (h : o.Answers)
    (hf : ∀ x, o = .ok x → ∃ e, f x = report e) : ∃ e, (o >>= f) = report e := by
  rcases h with ⟨x, hx⟩ | ⟨e, he⟩
  · rw [hx, bind_ok]
    exact hf x hx
  · rw [he]
    exact ⟨e, rfl⟩

end Outcome

/-! ### A whole number in a range -/

namespace PropertyList

variable {α β : Type}

theorem int_answers (p : PropertyList α) (name : String) (default : Int) :
    (p.int name default).Answers := by
  unfold int
  split
  · exact .inl ⟨_, rfl⟩
  · exact .inl ⟨_, rfl⟩
  · exact .inr ⟨_, rfl⟩

theorem text_answers (p : PropertyList α) (name default : String) :
    (p.text name default).Answers := by
  unfold text
  split
  · exact .inl ⟨_, rfl⟩
  · unfold asText
    split
    · exact .inl ⟨_, rfl⟩
    · exact .inr ⟨_, rfl⟩

/-- A whole number that is stored unless it is out of range. -/
def checked (p : PropertyList α) (name : String) (default : Int) (bad : Int → Prop)
    [DecidablePred bad] (refuse : Int → Error) (store : Int → β) : Outcome β := do
  let i ← p.int name default
  if bad i then report (refuse i) else pure (store i)

variable {p : PropertyList α} {name : String} {default : Int} {bad : Int → Prop}
  [DecidablePred bad] {refuse : Int → Error} {store : Int → β}

theorem checked_eq {i : Int} (h : p.int name default = .ok i) :
    p.checked name default bad refuse store =
      if bad i then report (refuse i) else .ok (store i) := by
  rw [checked, h]
  rfl

theorem checked_answers : (p.checked name default bad refuse store).Answers := by
  rcases p.int_answers name default with ⟨i, hi⟩ | ⟨e, he⟩
  · rw [checked_eq hi]
    split
    · exact .inr ⟨_, rfl⟩
    · exact .inl ⟨_, rfl⟩
  · rw [checked, he]
    exact .inr ⟨_, rfl⟩

/-- What was stored was in range. -/
theorem checked_eq_ok_iff {i : Int} (h : p.int name default = .ok i) {x : β} :
    p.checked name default bad refuse store = .ok x ↔ ¬ bad i ∧ x = store i := by
  rw [checked_eq h]
  split
  · rename_i hbad
    exact ⟨nofun, fun h => absurd hbad h.1⟩
  · rename_i hgood
    exact ⟨fun h => ⟨hgood, (Except.ok.inj h).symm⟩, fun h => congrArg _ h.2.symm⟩

end PropertyList

/-! ### Words of 32 bits -/

/-- A word of 32 bits holds the remainder of a whole number. -/
theorem toNat_ofInt (i : Int) : ((UInt32.ofInt i).toNat : Int) = i % 2 ^ 32 := by
  rw [UInt32.ofInt, UInt32.toNat_ofNat']
  omega

/-- A word holds the lower 32 bits of a whole number, so it holds the number itself if and only if it
fits. -/
def HoldsLowBits (word : UInt32) (i : Int) : Prop :=
  (word.toNat : Int) = i % 2 ^ 32 ∧ ((word.toNat : Int) = i ↔ i < 2 ^ 32)

theorem holdsLowBits_ofInt {i : Int} (h : 0 ≤ i) : HoldsLowBits (UInt32.ofInt i) i := by
  refine ⟨toNat_ofInt i, ?_⟩
  rw [toNat_ofInt]
  omega

/-! ### What is read -/

section

variable {α : Type}

/-- The word in which a number of workers is kept. -/
def Settings.threadWord (cores : Nat) (threads : Int) : UInt32 :=
  if threads = 0 then (ThreadParam.allCores cores vertexBatch).threads else UInt32.ofInt threads

namespace Settings

theorem readThreads_eq (cores : Nat) (p : PropertyList α) :
    readThreads cores p =
      p.checked "threads" 0 (· < 0) .negativeThreads (threadWord cores) := by
  unfold readThreads PropertyList.checked threadWord
  simp only [apply_ite pure]

end Settings

/-- The mode of a name, with a bounce count that is only compared with zero. -/
theorem Mode.ofProperties_interreflection {p : PropertyList α}
    (h : p.text "type" "unshadowed" = .ok "interreflection") :
    Mode.ofProperties p =
      p.checked "bounce" 1 (· < 0) .negativeBounce fun b => .interreflection (UInt32.ofInt b) := by
  rw [Mode.ofProperties, h]
  rfl

theorem Mode.ofProperties_answers (p : PropertyList α) : (Mode.ofProperties p).Answers := by
  rcases p.text_answers "type" "unshadowed" with ⟨name, hname⟩ | ⟨e, he⟩
  · by_cases h : name = "interreflection"
    · rw [Mode.ofProperties_interreflection (h ▸ hname)]
      exact PropertyList.checked_answers
    · rw [Mode.ofProperties, hname, Outcome.bind_ok]
      split
      · exact .inl ⟨_, rfl⟩
      · split
        · exact .inl ⟨_, rfl⟩
        · rw [if_neg (by simpa using h)]
          exact .inr ⟨_, rfl⟩
  · rw [Mode.ofProperties, he]
    exact .inr ⟨e, rfl⟩

namespace Settings

variable [Scalar α] {cores : Nat} {p : PropertyList α}

/-- Settings hold what was read. -/
theorem reads_of_ofProperties {settings : Settings α}
    (h : Settings.ofProperties cores p = .ok settings) :
    Mode.ofProperties p = .ok settings.mode ∧ readOrder p = .ok settings.order ∧
      readSampleCount p = .ok settings.sampleCount ∧
      readThreads cores p = .ok settings.threads ∧
      readRotation settings.order p = .ok settings.rotation := by
  rw [Settings.ofProperties] at h
  obtain ⟨mode, hmode, h⟩ := Outcome.bind_eq_ok_iff.1 h
  obtain ⟨order, horder, h⟩ := Outcome.bind_eq_ok_iff.1 h
  obtain ⟨sampleCount, hsampleCount, h⟩ := Outcome.bind_eq_ok_iff.1 h
  obtain ⟨seed, -, h⟩ := Outcome.bind_eq_ok_iff.1 h
  obtain ⟨threads, hthreads, h⟩ := Outcome.bind_eq_ok_iff.1 h
  obtain ⟨_ | cubemap, -, h⟩ := Outcome.bind_eq_ok_iff.1 h
  · cases h
  obtain ⟨extension, -, h⟩ := Outcome.bind_eq_ok_iff.1 h
  obtain ⟨skipFirst, -, h⟩ := Outcome.bind_eq_ok_iff.1 h
  obtain ⟨output, -, h⟩ := Outcome.bind_eq_ok_iff.1 h
  obtain ⟨rotation, hrotation, h⟩ := Outcome.bind_eq_ok_iff.1 h
  cases h
  exact ⟨hmode, horder, hsampleCount, hthreads, hrotation⟩

/-- If one of the readings of whole numbers fails, it or one before it is reported. -/
theorem exists_report_of_ofProperties
    (h : ∀ mode order sampleCount threads, Mode.ofProperties p = .ok mode →
      readOrder p = .ok order → readSampleCount p = .ok sampleCount →
      readThreads cores p = .ok threads → False) :
    ∃ e, Settings.ofProperties cores p = report e := by
  rw [Settings.ofProperties]
  refine (Mode.ofProperties_answers p).exists_report fun mode hmode => ?_
  refine PropertyList.checked_answers.exists_report fun order horder => ?_
  refine PropertyList.checked_answers.exists_report fun sampleCount hsampleCount => ?_
  refine (p.int_answers "seed" 0).exists_report fun seed _ => ?_
  have hanswers : (readThreads cores p).Answers := by
    rw [readThreads_eq]
    exact PropertyList.checked_answers
  exact hanswers.exists_report fun threads hthreads =>
    (h mode order sampleCount threads hmode horder hsampleCount hthreads).elim

end Settings

end

/-! ### The integrator -/

namespace Integrator

variable {α : Type} [Scalar α]

theorem ofProperties_eq_ok_iff {cores : Nat} {p : PropertyList α} {prt : Integrator α} :
    ofProperties cores p = .ok prt ↔
      Settings.ofProperties cores p = .ok prt.settings ∧ prt = ofSettings prt.settings := by
  rw [ofProperties]
  cases Settings.ofProperties cores p with
  | error e => exact ⟨nofun, fun h => nomatch h.1⟩
  | ok settings =>
    constructor
    · rintro ⟨⟩
      exact ⟨rfl, rfl⟩
    · rintro ⟨hsettings, hprt⟩
      rw [hprt, ← Except.ok.inj hsettings]
      rfl

/-- **Which whole numbers are accepted, and what is kept of them.** An order, a number of samples, a
number of workers or a bounce count out of range is reported. An integrator that is built holds the
order and the number of samples as they are, and of the other two the lower 32 bits. -/
theorem ofProperties_integers {cores : Nat} {p : PropertyList α} {name : String}
    {order count threads bounce : Int} (hname : p.text "type" "unshadowed" = .ok name)
    (horder : p.int "order" 2 = .ok order) (hcount : p.int "sample_count" 100 = .ok count)
    (hthreads : p.int "threads" 0 = .ok threads)
    (hbounce : name = "interreflection" → p.int "bounce" 1 = .ok bounce) :
    (order < 0 ∨ 16 < order ∨ count < 1 ∨ 2 ^ 32 ≤ count ∨ threads < 0 ∨
        (name = "interreflection" ∧ bounce < 0) →
      ∃ e, ofProperties cores p = report e) ∧
    ∀ prt, ofProperties cores p = .ok prt →
      (prt.settings.order.toNat : Int) = order ∧
      (prt.settings.sampleCount.toNat : Int) = count ∧
      (threads ≠ 0 → HoldsLowBits prt.settings.threads threads) ∧
      (name = "interreflection" →
        ∃ b, prt.settings.mode = .interreflection b ∧ HoldsLowBits b bounce) := by
  have order_iff {word : UInt32} : Settings.readOrder p = .ok word ↔
      ¬ (order < 0 ∨ Settings.maxOrder < order) ∧ word = UInt32.ofInt order :=
    PropertyList.checked_eq_ok_iff horder
  have count_iff {word : UInt32} : Settings.readSampleCount p = .ok word ↔
      ¬ (count < 1 ∨ (twoPow 32 : Int) ≤ count) ∧ word = UInt32.ofInt count :=
    PropertyList.checked_eq_ok_iff hcount
  have threads_iff {word : UInt32} : Settings.readThreads cores p = .ok word ↔
      ¬ threads < 0 ∧ word = Settings.threadWord cores threads := by
    rw [Settings.readThreads_eq]
    exact PropertyList.checked_eq_ok_iff hthreads
  have mode_iff (h : name = "interreflection") {mode : Mode} : Mode.ofProperties p = .ok mode ↔
      ¬ bounce < 0 ∧ mode = .interreflection (UInt32.ofInt bounce) := by
    rw [Mode.ofProperties_interreflection (h ▸ hname)]
    exact PropertyList.checked_eq_ok_iff (hbounce h)
  have hmax : Settings.maxOrder = 16 := rfl
  have hpow : (twoPow 32 : Int) = 2 ^ 32 := rfl
  constructor
  · intro hbad
    obtain ⟨e, he⟩ : ∃ e, Settings.ofProperties cores p = report e := by
      refine Settings.exists_report_of_ofProperties fun mode _ _ _ hmode ho hc ht => ?_
      have horderRange := (order_iff.1 ho).1
      have hcountRange := (count_iff.1 hc).1
      have hthreadsRange := (threads_iff.1 ht).1
      rw [hmax] at horderRange
      rw [hpow] at hcountRange
      rcases hbad with hbad | hbad | hbad | hbad | hbad | ⟨hinter, hbad⟩
      iterate 5 omega
      exact ((mode_iff hinter).1 hmode).1 hbad
    exact ⟨e, by rw [ofProperties, he]; rfl⟩
  · intro prt h
    obtain ⟨hmode, ho, hc, ht, -⟩ := Settings.reads_of_ofProperties (ofProperties_eq_ok_iff.1 h).1
    obtain ⟨horderRange, ho⟩ := order_iff.1 ho
    obtain ⟨hcountRange, hc⟩ := count_iff.1 hc
    obtain ⟨hthreadsRange, ht⟩ := threads_iff.1 ht
    refine ⟨?_, ?_, ?_, ?_⟩
    · rw [ho, toNat_ofInt]
      rw [hmax] at horderRange
      omega
    · rw [hc, toNat_ofInt]
      rw [hpow] at hcountRange
      omega
    · intro hne
      rw [ht, Settings.threadWord, if_neg hne]
      exact holdsLowBits_ofInt (not_lt.1 hthreadsRange)
    · intro hinter
      obtain ⟨hrange, hmode⟩ := (mode_iff hinter).1 hmode
      exact ⟨_, hmode, holdsLowBits_ofInt (not_lt.1 hrange)⟩

/-- Properties that ask for interreflection. -/
def interreflecting (bounce threads : Int) : PropertyList Float :=
  ⟨[("cubemap", .text "faces"), ("type", .text "interreflection"), ("bounce", .int bounce),
    ("threads", .int threads), ("order", .int 4)], ""⟩

/-- Three levels of light and eight workers are kept. -/
theorem ofProperties_integers_interreflecting :
    ∃ prt, ofProperties 1 (interreflecting 3 8) = .ok prt ∧
      (prt.settings.order.toNat : Int) = 4 ∧ HoldsLowBits prt.settings.threads 8 ∧
      ∃ b, prt.settings.mode = .interreflection b ∧ HoldsLowBits b 3 := by
  have hok : ofProperties 1 (interreflecting 3 8) = .ok _ := rfl
  obtain ⟨horder, -, hthreads, hmode⟩ :=
    (ofProperties_integers (p := interreflecting 3 8) rfl rfl rfl rfl fun _ => rfl).2 _ hok
  exact ⟨_, hok, horder, hthreads (by decide), hmode rfl⟩

/-- Of `2 ^ 32` levels of light none is left, and of `2 ^ 32 + 1` workers one. -/
theorem ofProperties_wraps :
    ∃ prt, ofProperties 1 (interreflecting (2 ^ 32) (2 ^ 32 + 1)) = .ok prt ∧
      prt.settings.mode = .interreflection 0 ∧ prt.settings.threads = 1 :=
  ⟨_, rfl, rfl, rfl⟩

end Integrator

end RadianceTransfer
