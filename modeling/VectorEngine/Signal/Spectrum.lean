/-
Spectra of real signals, and signals from half spectra.

A signal is padded with zeros to a power of two `N`; its spectrum is kept for
the bins from 0 to `N / 2`, the others being their mirror images. The inverse
takes such a half spectrum, mirrors it and divides by `N`.
-/
import VectorEngine.Signal.Transform
import VectorEngine.Signal.Window

namespace VectorEngine

/-- What a forward transform is asked for. `spacing` is the distance between
samples. -/
structure SpectrumOptions (α : Type) where
  window : Window
  /-- Keep bin 0. -/
  includeConstant : Bool
  /-- Count the mirror image of a bin in its magnitude. -/
  fold : Bool
  spacing : α
deriving DecidableEq, Repr

/-- Samples lie a positive distance apart. -/
def SpectrumOptions.check {α : Type} [Element α] (o : SpectrumOptions α) : Except InputError Unit :=
  if Element.isFinite o.spacing && Element.less Element.zero o.spacing then .ok ()
  else .error (.invalidArgument "delta" .badSpacing)

/-- A half spectrum, one entry per bin kept. -/
structure Spectrum (α : Type) where
  /-- The length of the padded signal. -/
  padded : Nat
  real : List α
  imag : List α
  /-- Magnitudes over the norm of the window. -/
  magnitude : List α
  phase : List α
  frequency : List α
deriving DecidableEq, Repr

namespace Spectrum

variable {α : Type} [Circular α]

open Element

/-- The samples times their weights, blanks as zero, and zeros up to `padded`. -/
def prepare (values weights : List α) (padded : Nat) : List (Phasor α) :=
  let samples := values.zipWith (fun x w => if isBlank x then .zero else .ofReal (x * w)) weights
  samples ++ List.replicate (padded - samples.length) .zero

/-- All bins of the weighted and padded signal. -/
def bins (window : Window) (values : List α) : List (Phasor α) :=
  let padded := Fourier.paddedLength values.length
  Fourier.transform Phasor.turnForward (Fourier.levelFor values.length)
    (prepare values (window.weights values.length padded) padded)

/-- The magnitude reported for bin `k` of `padded`. -/
def reported (fold : Bool) (norm : α) (padded k : Nat) (bin : Phasor α) : α :=
  let magnitude := bin.magnitude / norm
  if fold && 0 < k && k < padded / 2 then magnitude * ofNat 2 else magnitude

/-- The spectrum of a signal. -/
def ofSignal (options : SpectrumOptions α) (values : List α) : Except InputError (Spectrum α) := do
  options.check
  if values.isEmpty then .error (.emptyInput "input")
  let padded := Fourier.paddedLength values.length
  let norm := options.window.norm (options.window.weights values.length padded) padded
  let scale := one / (options.spacing * ofNat padded)
  let half := (bins options.window values).zipIdx.take (padded / 2 + 1)
  let kept := half.drop (if options.includeConstant then 0 else 1)
  return {
    padded := padded
    real := kept.map fun b => b.1.re
    imag := kept.map fun b => b.1.im
    magnitude := kept.map fun b => reported options.fold norm padded b.2 b.1
    phase := kept.map fun b => Circular.angle b.1.im b.1.re
    frequency := kept.map fun b => ofNat b.2 * scale }

end Spectrum

/-- A half spectrum whose first entry is bin 0, as far as it is known. -/
structure HalfSpectrum (α : Type) where
  bins : List (Phasor α)

namespace HalfSpectrum

variable {α : Type} [Circular α]

open Element

def known (x : α) : α := if isBlank x then zero else x

/-- The bins with these parts; without a constant term bin 0 is zero, and
missing imaginary parts are. -/
def ofParts (includesConstant : Bool) (real : List α) (imag? : Option (List α)) :
    Except InputError (HalfSpectrum α) :=
  let imag := imag?.getD (List.replicate real.length zero)
  if real.isEmpty then .error (.emptyInput "real")
  else if imag.length ≠ real.length then .error (.lengthMismatch "imag" real.length imag.length)
  else
    let parts := real.zipWith (fun re im => (⟨known re, known im⟩ : Phasor α)) imag
    .ok ⟨if includesConstant then parts else .zero :: parts⟩

/-- The exponent of the length of the full spectrum: that of twice the highest
bin. -/
def level (h : HalfSpectrum α) : Nat := Fourier.levelFor (2 * (h.bins.length - 1))

/-- One write into the full spectrum: a bin at its position, or at `target` the
mirror image of what `source` holds by then. -/
inductive Write (α : Type)
  | bin (target : Nat) (value : Phasor α)
  | mirror (target source : Nat)

def Write.target : Write α → Nat
  | bin target _ => target
  | mirror target _ => target

def Write.value (spectrum : Array (Phasor α)) : Write α → Phasor α
  | bin _ value => value
  | mirror _ source => (spectrum.getD source .zero).conj

def Write.apply (spectrum : Array (Phasor α)) (w : Write α) : Array (Phasor α) :=
  spectrum.setIfInBounds w.target (w.value spectrum)

/-- The writes that make the full spectrum: the bins first, then those strictly
between bin 0 and the middle once more, mirrored. -/
def writes (h : HalfSpectrum α) : List (Write α) :=
  let length := Nat.pow 2 h.level
  (h.bins.zipIdx.map fun b => .bin b.2 b.1) ++
    (List.range' 1 (length / 2 - 1)).map fun k => .mirror (length - k) k

/-- The full spectrum, zero where nothing is written. -/
def full (h : HalfSpectrum α) : List (Phasor α) :=
  (h.writes.foldl Write.apply (Array.replicate (Nat.pow 2 h.level) .zero)).toList

/-- The signal of a half spectrum. -/
def signal (h : HalfSpectrum α) : List (Phasor α) :=
  let scale : α := one / ofNat (Nat.pow 2 h.level)
  (Fourier.transform Phasor.turnInverse h.level h.full).map fun c => ⟨c.re * scale, c.im * scale⟩

end HalfSpectrum
end VectorEngine
