import Mathlib
import RadianceTransfer.Picture.Decode
import RadianceTransfer.Proofs.Color
import RadianceTransfer.Proofs.Cubemap.Loading

/-!
# Pictures of unbounded radiance as faces

A cubemap takes unbounded colors as they are, and bounded samples through a power curve. Which of
the two happens is up to the decoder, and there the file of a picture of unbounded radiance is one
of eight bits: no file at all is taken as it is. So its values are cut off above one and rounded by
the decoder, and then go through the curve a second time.

What is left of a value is not much. Eight bits tell 256 values apart, whatever the curves are. With
exact powers, zero and one are the only values that stay: in between the two curves pull a value
down by more than the rounding can make up for, and all values above one become one.

## Main definitions

* `ImageFile.throughEightBits`: what becomes of a value on its way into a cubemap.
* `Picture.radianceFile`: the file of a picture.

## Main statements

* `ImageFile.unbounded_decode`: no file is taken as it is.
* `ImageFile.exists_throughEightBits_ne`: of more than 256 values one is changed, whatever the
  curves.
* `ImageFile.throughEightBits_eq_self_iff`: which values stay.
* `CubeMap.exists_load_radiance`: the texels of a cubemap from such files.
* `CubeMap.radiance_kept_iff`: which texels are the pixels of the files.
-/

namespace RadianceTransfer

variable {π α : Type} [Scalar π] [Scalar α]

namespace ImageFile

/-! ### Any scalars -/

/-- What becomes of an unbounded value on its way into a cubemap. -/
def throughEightBits (widen : π → α) (v : π) : α :=
  Scalar.pow (unit widen .eight (radianceSample v)) 2.2

/-- What becomes of an unbounded color. -/
def colorThroughEightBits (widen : π → α) (c : Color π) : Color α :=
  ⟨throughEightBits widen c.r, throughEightBits widen c.g, throughEightBits widen c.b⟩

theorem get_colorThroughEightBits (widen : π → α) (c : Color π) (k : Channel) :
    (colorThroughEightBits widen c).get k = throughEightBits widen (c.get k) := by
  cases k <;> rfl

theorem radianceSample_le (v : π) : radianceSample v ≤ 255 :=
  Nat.min_le_left _ _

/-- No file is decoded to colors that are taken as they are. -/
theorem unbounded_decode (widen : π → α) (file : ImageFile π) :
    (file.decode widen).unbounded = false := by
  cases file <;> rfl

/-- Of more than 256 different values at least one is changed. This does not depend on the power
curves. -/
theorem exists_throughEightBits_ne (widen : π → α) {values : Fin 257 → π}
    (h : Function.Injective fun i => widen (values i)) :
    ∃ i, throughEightBits widen (values i) ≠ widen (values i) := by
  by_contra hkept
  push Not at hkept
  let sample (i : Fin 257) : Fin 256 :=
    ⟨radianceSample (values i), Nat.lt_succ_of_le (radianceSample_le _)⟩
  obtain ⟨i, j, hij, hsample⟩ := Fintype.exists_ne_map_eq_of_card_lt sample (by simp)
  have hsame : radianceSample (values i) = radianceSample (values j) := Fin.mk.inj hsample
  refine hij (h ?_)
  show widen (values i) = widen (values j)
  rw [← hkept i, ← hkept j, throughEightBits, throughEightBits, hsame]

/-! ### Exact powers -/

section Real

variable {v : ℝ}

theorem radianceSample_eq (v : ℝ) :
    radianceSample v = min 255 ⌊v ^ (2.2 : ℝ) * 255 + 1 / 2⌋₊ := by
  have hhalf : (0.5 : ℝ) = 1 / 2 := by norm_num
  have hcut (n : ℕ) : min 255 (min n (2 ^ 64 - 1)) = min 255 n := by omega
  rw [← hcut, ← hhalf]
  rfl

theorem throughEightBits_eq (v : ℝ) :
    throughEightBits id v = ((radianceSample v : ℝ) / 255) ^ (2.2 : ℝ) :=
  rfl

/-- Values of at least one are cut off. -/
theorem throughEightBits_of_one_le (hv : 1 ≤ v) : throughEightBits id v = 1 := by
  have hpower : 1 ≤ v ^ (2.2 : ℝ) := Real.one_le_rpow hv (by norm_num)
  have hfloor : 255 ≤ ⌊v ^ (2.2 : ℝ) * 255 + 1 / 2⌋₊ := by
    refine Nat.le_floor ?_
    push_cast
    linarith
  have hsample : radianceSample v = 255 := by
    rw [radianceSample_eq, Nat.min_eq_left hfloor]
  rw [throughEightBits_eq, hsample]
  norm_num

theorem throughEightBits_zero : throughEightBits id (0 : ℝ) = 0 := by
  have hsample : radianceSample (0 : ℝ) = 0 := by
    rw [radianceSample_eq, Real.zero_rpow (by norm_num)]
    norm_num
  rw [throughEightBits_eq, hsample]
  norm_num

/-- A sample that is neither the least nor the largest one stands for a value from which the decoder
makes a smaller sample. -/
theorem radianceSample_lt {n : ℕ} (hpos : 0 < n) (hlt : n < 255) :
    radianceSample (((n : ℝ) / 255) ^ (2.2 : ℝ)) < n := by
  obtain ⟨u, hu⟩ : ∃ u : ℝ, u = n / 255 := ⟨_, rfl⟩
  have hn : (n : ℝ) = u * 255 := by
    rw [hu]
    ring
  have hu0 : 0 < u := by
    rw [hu]
    positivity
  have hu1 : u ≤ 1 := by
    rw [hu, div_le_one (by norm_num)]
    exact_mod_cast hlt.le
  -- both curves together pull down at least as much as a square
  have hcurves : (u ^ (2.2 : ℝ)) ^ (2.2 : ℝ) ≤ u ^ 2 := by
    rw [← Real.rpow_mul hu0.le, ← Real.rpow_natCast]
    exact Real.rpow_le_rpow_of_exponent_ge hu0 hu1 (by norm_num)
  have hgap : (254 : ℝ) ≤ n * (255 - n) := by
    have h1 : (1 : ℝ) ≤ n := by exact_mod_cast hpos
    have h2 : (n : ℝ) ≤ 254 := by exact_mod_cast Nat.le_of_lt_succ hlt
    nlinarith [mul_nonneg (sub_nonneg.2 h1) (sub_nonneg.2 h2)]
  have hbelow : (u ^ (2.2 : ℝ)) ^ (2.2 : ℝ) * 255 + 1 / 2 < n := by
    rw [hn] at hgap ⊢
    nlinarith [hcurves, hgap]
  rw [radianceSample_eq, ← hu]
  refine (Nat.min_le_right _ _).trans_lt ?_
  exact (Nat.floor_lt (by positivity)).2 hbelow

/-- **Only zero and one stay.** -/
theorem throughEightBits_eq_self_iff (hv : 0 ≤ v) :
    throughEightBits id v = v ↔ v = 0 ∨ v = 1 := by
  constructor
  · intro hkept
    rw [throughEightBits_eq] at hkept
    rcases Nat.eq_zero_or_pos (radianceSample v) with hzero | hpos
    · left
      rw [← hkept, hzero, Nat.cast_zero, zero_div, Real.zero_rpow (by norm_num)]
    · rcases (radianceSample_le v).lt_or_eq with hlt | hfull
      · have hless := radianceSample_lt hpos hlt
        rw [hkept] at hless
        exact absurd hless (lt_irrefl _)
      · right
        rw [← hkept, hfull]
        norm_num
  · rintro (rfl | rfl)
    · exact throughEightBits_zero
    · exact throughEightBits_of_one_le le_rfl

end Real

end ImageFile

/-! ### Faces -/

namespace Picture

/-- The colors that four bytes hold: three significands with a common exponent. -/
def IsSharedExponent (c : Color ℝ) : Prop :=
  c = ⟨0, 0, 0⟩ ∨ ∃ r g b e : UInt8, e ≠ 0 ∧
    c = ⟨r.toNat * 2 ^ (e.toNat - 136 : ℤ), g.toNat * 2 ^ (e.toNat - 136 : ℤ),
      b.toNat * 2 ^ (e.toNat - 136 : ℤ)⟩

/-- None of them is below black. -/
theorem IsSharedExponent.get_nonneg {c : Color ℝ} (h : IsSharedExponent c) (k : Channel) :
    0 ≤ c.get k := by
  rcases h with rfl | ⟨r, g, b, e, -, rfl⟩
  · cases k <;> exact le_rfl
  · cases k <;> exact mul_nonneg (Nat.cast_nonneg _) (zpow_nonneg zero_le_two _)

/-- The file of a picture of unbounded radiance. -/
def radianceFile (p : Picture π) : ImageFile π :=
  .radiance p.width p.height p.texels

/-- What the decoder makes of that file: a picture of eight bits. -/
def eightBit (widen : π → α) (p : Picture π) : Picture α where
  width := p.width
  height := p.height
  channels := PixelLayout.rgb.channels
  unbounded := false
  pixel x y := ImageFile.pixelColor widen .rgb .eight
    [ImageFile.radianceSample (p.pixel x y).r, ImageFile.radianceSample (p.pixel x y).g,
      ImageFile.radianceSample (p.pixel x y).b]
  width_pos := p.width_pos
  height_pos := p.height_pos
  fits := p.fits

theorem decode_radianceFile (widen : π → α) (p : Picture π) :
    p.radianceFile.decode widen = (p.eightBit widen).toImage := by
  rw [radianceFile, ImageFile.decode, texels, Array.map_ofFn]
  rfl

theorem radiance_eightBit (widen : π → α) (p : Picture π) (x y : Nat) :
    (p.eightBit widen).radiance x y = ImageFile.colorThroughEightBits widen (p.pixel x y) :=
  rfl

end Picture

/-- What may be found where the file of a face should be, if it can only be such a file. -/
def FaceEntry.ofRadiance (widen : π → α) : Option (Picture π) → FaceEntry α
  | none => .missing
  | some p => .picture (p.eightBit widen)

/-- What reading the file comes to. -/
def FaceFile.ofRadiance (widen : π → α) : Option (Picture π) → FaceFile α
  | none => .missing
  | some p => .image (p.radianceFile.decode widen)

theorem FaceEntry.toFile_ofRadiance (widen : π → α) (found : Option (Picture π)) :
    (FaceEntry.ofRadiance widen found).toFile = .ofRadiance widen found := by
  cases found with
  | none => rfl
  | some p => exact congrArg FaceFile.image (p.decode_radianceFile widen).symm

/-- Bytes that hold a picture are read as its file. -/
theorem faceOfBytes_eq_ofRadiance {bytes : ByteArray} {p : Picture Float32}
    (h : Picture.readRadiance? bytes = some p.radianceFile) :
    Picture.faceOfBytes "hdr" bytes = .ofRadiance Float32.toFloat (some p) := by
  have hdecoded : Picture.ofBytes? "hdr" bytes = some p.radianceFile := h
  rw [Picture.faceOfBytes, hdecoded]
  rfl

namespace CubeMap

/-- Six pictures of unbounded radiance of one size are loaded, and their values have gone through
eight bits. -/
theorem exists_load_radiance (widen : π → α) (path : CubeFace → String)
    (files : String → Option (Picture π)) {width height : Nat}
    (hfiles : ∀ face ∈ CubeFace.all, ∃ p, files (path face) = some p ∧ p.width = width ∧
      p.height = height) :
    ∃ m, load path (fun name => .ofRadiance widen (files name)) = .ok m ∧ m.width = width ∧
      m.height = height ∧ ∀ (f : Nat) (face : CubeFace) (p : Picture π),
        CubeFace.all[f]? = some face → files (path face) = some p →
          ∀ x y, x < width → y < height → m.texel f x y =
            .ok (ImageFile.colorThroughEightBits widen (p.pixel x y)) := by
  let entries (name : String) : FaceEntry α := .ofRadiance widen (files name)
  have hread : (fun name => .ofRadiance widen (files name)) = FaceEntry.read entries :=
    funext fun name => (FaceEntry.toFile_ofRadiance widen (files name)).symm
  have hentry {face : CubeFace} {p : Picture π} (hp : files (path face) = some p) :
      entries (path face) = .picture (p.eightBit widen) :=
    congrArg (FaceEntry.ofRadiance widen) hp
  have huniform : IsUniform path entries := by
    refine ⟨⟨width, height, PixelLayout.rgb.channels⟩, fun face hface => ?_⟩
    obtain ⟨p, hp, rfl, rfl⟩ := hfiles face hface
    exact ⟨_, hentry hp, rfl⟩
  obtain ⟨m, hm, hfaces, hsizes⟩ := exists_load huniform
  -- every face has the size of the cubemap, so the size is known from any of them
  have hsize {face : CubeFace} {p : Picture π} (hface : face ∈ CubeFace.all)
      (hp : files (path face) = some p) : p.width = m.width ∧ p.height = m.height := by
    obtain ⟨_, hp', hwidth, hheight⟩ := hsizes face hface
    cases (hentry hp).symm.trans hp'
    exact ⟨hwidth, hheight⟩
  obtain ⟨first, hfirst, rfl, rfl⟩ := hfiles .negX (by decide)
  obtain ⟨hwidth, hheight⟩ := hsize (by decide) hfirst
  refine ⟨m, hread ▸ hm, hwidth.symm, hheight.symm, fun f face p hface hp x y hx hy => ?_⟩
  obtain ⟨hwidth', hheight'⟩ := hsize (List.mem_of_getElem? hface) hp
  have hx' : x < (p.eightBit widen).width := hwidth'.trans hwidth.symm ▸ hx
  have hy' : y < (p.eightBit widen).height := hheight'.trans hheight.symm ▸ hy
  rw [texel_eq hfaces hface (hentry hp) hwidth' hx' hy', Picture.radiance_eightBit]

/-- **Only zero and one get through.** Six pictures of unbounded radiance of one size are loaded.
Each value is raised to a power, rounded to eight bits, and raised to the power again. Values of at
least one come out as one, and a texel is the pixel of the file exactly if each of its values is
zero or one. -/
theorem radiance_kept_iff (join : String → String → String) (folder : String)
    (files : String → Option (Picture ℝ)) {width height : Nat}
    (hfiles : ∀ face ∈ CubeFace.all, ∃ p, files (facePath join folder "hdr" face) = some p ∧
      p.width = width ∧ p.height = height ∧
        ∀ x y, x < width → y < height → ∀ k, 0 ≤ (p.pixel x y).get k) :
    let path := facePath join folder "hdr"
    ∃ m, load path (fun name => .ofRadiance id (files name)) = .ok m ∧ m.width = width ∧
      m.height = height ∧ ∀ (f : Nat) (face : CubeFace) (p : Picture ℝ),
        CubeFace.all[f]? = some face → files (path face) = some p →
          ∀ x y, x < width → y < height → ∃ c, m.texel f x y = .ok c ∧
            (∀ k, c.get k =
              ((min 255 ⌊(p.pixel x y).get k ^ (2.2 : ℝ) * 255 + 1 / 2⌋₊ : ℕ) / 255 : ℝ) ^
                (2.2 : ℝ)) ∧
            (∀ k, 1 ≤ (p.pixel x y).get k → c.get k = 1) ∧
            (c = p.pixel x y ↔ ∀ k, (p.pixel x y).get k = 0 ∨ (p.pixel x y).get k = 1) := by
  intro path
  obtain ⟨m, hm, hwidth, hheight, htexels⟩ := exists_load_radiance id path files
    fun face hface =>
      let ⟨p, hp, hwidth, hheight, _⟩ := hfiles face hface
      ⟨p, hp, hwidth, hheight⟩
  refine ⟨m, hm, hwidth, hheight, fun f face p hface hp x y hx hy => ⟨_, htexels f face p hface hp
    x y hx hy, fun k => ?_, fun k hk => ?_, ?_⟩⟩
  · rw [ImageFile.get_colorThroughEightBits, ImageFile.throughEightBits_eq,
      ImageFile.radianceSample_eq]
  · rw [ImageFile.get_colorThroughEightBits, ImageFile.throughEightBits_of_one_le hk]
  · obtain ⟨_, hp', -, -, hnonneg⟩ := hfiles face (List.mem_of_getElem? hface)
    cases hp.symm.trans hp'
    have hvalue (k : Channel) := ImageFile.throughEightBits_eq_self_iff (hnonneg x y hx hy k)
    constructor
    · intro hkept k
      rw [← hvalue k, ← ImageFile.get_colorThroughEightBits, hkept]
    · intro hkept
      refine Color.ext_get fun k => ?_
      rw [ImageFile.get_colorThroughEightBits, (hvalue k).2 (hkept k)]

/-- A row of three pixels, of growing red. -/
def reddening : Picture ℝ where
  width := 3
  height := 1
  channels := 3
  unbounded := true
  pixel x _ := ⟨x, 0, 1⟩
  width_pos := by decide
  height_pos := by decide
  fits := by decide

theorem isSharedExponent_reddening {x : Nat} (hx : x < 3) (y : Nat) :
    Picture.IsSharedExponent (reddening.pixel x y) := by
  right
  interval_cases x
  · exact ⟨0, 0, 128, 129, by decide, by norm_num [reddening, UInt8.toNat_ofNat]⟩
  · exact ⟨128, 0, 128, 129, by decide, by norm_num [reddening, UInt8.toNat_ofNat]⟩
  · exact ⟨128, 0, 64, 130, by decide, by norm_num [reddening, UInt8.toNat_ofNat]⟩

/-- The second one stays as it is, and the third one does not. -/
theorem radiance_kept_iff_reddening :
    let path := facePath (· ++ "/" ++ ·) "room" "hdr"
    (∀ x y, x < 3 → y < 1 → ∀ k, 0 ≤ (reddening.pixel x y).get k) ∧
      ∃ m, load path (fun _ => .ofRadiance id (some reddening)) = .ok m ∧
        m.texel 3 1 0 = .ok ⟨1, 0, 1⟩ ∧ m.texel 3 2 0 ≠ .ok ⟨2, 0, 1⟩ := by
  intro path
  have hnonneg : ∀ x y, x < 3 → y < 1 → ∀ k, 0 ≤ (reddening.pixel x y).get k :=
    fun x y hx _ k => (isSharedExponent_reddening hx y).get_nonneg k
  obtain ⟨m, hm, -, -, htexels⟩ := radiance_kept_iff (· ++ "/" ++ ·) "room"
    (fun _ => some reddening) fun _ _ => ⟨reddening, rfl, rfl, rfl, hnonneg⟩
  obtain ⟨c, hc, -, -, hkept⟩ := htexels 3 .negY reddening rfl rfl 1 0 (by decide) (by decide)
  obtain ⟨c', hc', -, -, hkept'⟩ := htexels 3 .negY reddening rfl rfl 2 0 (by decide) (by decide)
  have hone : reddening.pixel 1 0 = ⟨1, 0, 1⟩ := by simp [reddening]
  have htwo : reddening.pixel 2 0 = ⟨2, 0, 1⟩ := by simp [reddening]
  rw [hone] at hkept
  rw [htwo] at hkept'
  refine ⟨hnonneg, m, hm, ?_, fun heq => ?_⟩
  · rw [hc, hkept.2]
    rintro (_ | _ | _) <;> simp [Color.get]
  · have h := hkept'.1 (Except.ok.inj (hc'.symm.trans heq)) .red
    norm_num [Color.get] at h

/-- The third one comes out as the second one. -/
theorem radiance_cut_off_reddening :
    let path := facePath (· ++ "/" ++ ·) "room" "hdr"
    (∀ x y, x < 3 → Picture.IsSharedExponent (reddening.pixel x y)) ∧
      ∃ m, load path (fun _ => .ofRadiance id (some reddening)) = .ok m ∧
        reddening.pixel 2 0 = ⟨2, 0, 1⟩ ∧ m.texel 0 2 0 = .ok ⟨1, 0, 1⟩ ∧
          m.texel 0 2 0 ≠ .ok (reddening.pixel 2 0) := by
  intro path
  obtain ⟨m, hm, -, -, htexels⟩ := exists_load_radiance id path (fun _ => some reddening)
    fun _ _ => ⟨reddening, rfl, rfl, rfl⟩
  have htwo : reddening.pixel 2 0 = ⟨2, 0, 1⟩ := by simp [reddening]
  have htexel : m.texel 0 2 0 = .ok ⟨1, 0, 1⟩ := by
    rw [htexels 0 .negX reddening rfl rfl 2 0 (by decide) (by decide), htwo,
      ImageFile.colorThroughEightBits, ImageFile.throughEightBits_of_one_le one_le_two,
      ImageFile.throughEightBits_zero, ImageFile.throughEightBits_of_one_le le_rfl]
  refine ⟨fun x y hx => isSharedExponent_reddening hx y, m, hm, htwo, htexel, fun heq => ?_⟩
  rw [htexel, htwo] at heq
  have hred := congrArg Color.r (Except.ok.inj heq)
  norm_num at hred

end CubeMap

end RadianceTransfer
