import Mathlib.Algebra.Group.Nat.Defs
import SchedulingUtil.Lib.JsonRender

/-! # Decimal numbers with six places

An integer stands for that many millionths and is written as a decimal number. The reader
takes every number of the JSON grammar, cutting off what is smaller than a
millionth. -/
namespace SchedulingUtil.Lib.Json

/-- The six digits of a fraction, none but the first when it is zero. -/
def renderFraction (r : Nat) : Text :=
  if r = 0 then ['0']
  else List.replicate (6 - (Nat.toDigits 10 r).length) '0' ++ Nat.toDigits 10 r

def renderMillionths (n : Int) : Text :=
  (if n < 0 then ['-'] else []) ++
    (Nat.toDigits 10 (n.natAbs / 1000000) ++ '.' :: renderFraction (n.natAbs % 1000000))

/-- Digits of an integer part: no zero in front of another digit. -/
def IntDigits (ds : Text) : Prop := ds = ['0'] ∨ (ds ≠ [] ∧ ds.head? ≠ some '0')

instance (ds : Text) : Decidable (IntDigits ds) := inferInstanceAs (Decidable (_ ∨ _))

def digitsVal (ds : Text) : Nat := Nat.ofDigitChars 10 ds 0

/-- The exponent part, up to the end. -/
def readExponent : Text → Option Int
  | [] => some 0
  | e :: rest =>
    if e = 'e' ∨ e = 'E' then
      let (neg, ds) := match rest with
        | '-' :: ds => (true, ds)
        | '+' :: ds => (false, ds)
        | ds => (false, ds)
      if ds ≠ [] ∧ ds.all Char.isDigit then some (if neg then -(digitsVal ds) else digitsVal ds)
      else none
    else none

/-- The digits after the point, and what follows them. -/
def readFraction : Text → Option (Text × Text)
  | '.' :: rest =>
    if rest.takeWhile Char.isDigit = [] then none
    else some (rest.takeWhile Char.isDigit, rest.dropWhile Char.isDigit)
  | rest => some ([], rest)

/-- `ds` as a number of units of `10 ^ e`, in whole numbers, towards zero. -/
def scale (ds : Text) (e : Int) : Nat :=
  if 0 ≤ e then digitsVal ds * 10 ^ e.toNat else digitsVal ds / 10 ^ (-e).toNat

/-- A number without its sign: its digits, and the power of ten they are to be taken times. -/
def readDigits (cs : Text) : Option (Text × Int) := do
  let ip := cs.takeWhile Char.isDigit
  if IntDigits ip then
    let (fp, rest) ← readFraction (cs.dropWhile Char.isDigit)
    let e ← readExponent rest
    return (ip ++ fp, e - fp.length)
  else none

def readUnsigned (cs : Text) : Option Nat :=
  (readDigits cs).map fun (ds, e) => scale ds (6 + e)

def readMillionths : Text → Option Int
  | '-' :: cs => (readUnsigned cs).map fun n : Nat => -(n : Int)
  | cs => (readUnsigned cs).map Int.ofNat

example : readMillionths ['1', '.', '5', 'e', '+', '3'] = some 1500000000 := by decide

/-! ## Reading back -/

theorem takeWhile_digits {ds r : Text} (h : ∀ c ∈ ds, c.isDigit = true)
    (hr : r.takeWhile Char.isDigit = []) : (ds ++ r).takeWhile Char.isDigit = ds := by
  rw [List.takeWhile_append_of_pos h, hr, List.append_nil]

theorem dropWhile_digits {ds r : Text} (h : ∀ c ∈ ds, c.isDigit = true)
    (hr : r.takeWhile Char.isDigit = []) : (ds ++ r).dropWhile Char.isDigit = r := by
  have := List.takeWhile_append_dropWhile (p := Char.isDigit) (l := ds ++ r)
  rw [takeWhile_digits h hr] at this
  exact List.append_cancel_left this

theorem isDigit_toDigits (n : Nat) : ∀ c ∈ Nat.toDigits 10 n, c.isDigit = true :=
  fun _ h => Nat.isDigit_of_mem_toDigits (by omega) (by omega) h

theorem intDigits_toDigits (n : Nat) : IntDigits (Nat.toDigits 10 n) := by
  induction n using Nat.strong_induction_on with
  | _ n ih =>
    by_cases h : n < 10
    · rw [Nat.toDigits_of_lt_base h]
      by_cases hz : n = 0
      · subst hz; exact .inl rfl
      · exact .inr ⟨by simp, by simpa using hz⟩
    · have hpos : n / 10 ≠ 0 := by omega
      rw [Nat.toDigits_of_base_le (by omega) (by omega)]
      rcases ih (n / 10) (by omega) with hz | ⟨hne, hhead⟩
      · have hval := Nat.ofDigitChars_ten_toDigits (n := n / 10)
        rw [hz] at hval
        exact absurd hval.symm (by simpa [Nat.ofDigitChars] using hpos)
      · refine .inr ⟨by simp, ?_⟩
        rwa [List.head?_append_of_ne_nil _ hne]

theorem renderFraction_digits (r : Nat) : ∀ c ∈ renderFraction r, c.isDigit = true := by
  intro c hc
  unfold renderFraction at hc
  split at hc
  · obtain rfl := List.mem_singleton.mp hc
    rfl
  · rcases List.mem_append.mp hc with hc | hc
    · rw [List.eq_of_mem_replicate hc]
      rfl
    · exact isDigit_toDigits r c hc

theorem renderFraction_ne_nil (r : Nat) : renderFraction r ≠ [] := by
  unfold renderFraction
  split <;> simp

/-- The fraction, put behind the integer part, completes it to millionths. -/
theorem scale_renderFraction (ip : Text) {r : Nat} (hr : r < 1000000) :
    scale (ip ++ renderFraction r) (6 - (renderFraction r).length) =
      digitsVal ip * 1000000 + r := by
  have hval : digitsVal (ip ++ renderFraction r) =
      10 ^ (renderFraction r).length * digitsVal ip + digitsVal (renderFraction r) := by
    rw [digitsVal, Nat.ofDigitChars_append, Nat.ofDigitChars_eq_ofDigitChars_zero]
    rfl
  by_cases hz : r = 0
  · subst hz
    rw [scale, hval]
    simp [renderFraction, digitsVal, Nat.ofDigitChars]
    omega
  · have hlen : (Nat.toDigits 10 r).length ≤ 6 :=
      (Nat.length_toDigits_le_iff (by omega) (by omega)).mpr (by omega)
    have hsix : (renderFraction r).length = 6 := by
      simp only [renderFraction, if_neg hz, List.length_append, List.length_replicate]
      omega
    have hfrac : digitsVal (renderFraction r) = r := by
      rw [renderFraction, if_neg hz, digitsVal, Nat.ofDigitChars_append,
        Nat.ofDigitChars_replicate_zero, Nat.mul_zero, Nat.ofDigitChars_ten_toDigits]
    rw [scale, hval, hsix, hfrac]
    simp
    omega

theorem readUnsigned_render (q : Nat) {r : Nat} (hr : r < 1000000) :
    readUnsigned (Nat.toDigits 10 q ++ '.' :: renderFraction r) = some (q * 1000000 + r) := by
  have hip := takeWhile_digits (r := '.' :: renderFraction r) (isDigit_toDigits q) rfl
  have hrest := dropWhile_digits (r := '.' :: renderFraction r) (isDigit_toDigits q) rfl
  have hfp := takeWhile_digits (r := []) (renderFraction_digits r) rfl
  have hend := dropWhile_digits (r := []) (renderFraction_digits r) rfl
  rw [List.append_nil] at hfp hend
  have hscale := scale_renderFraction (Nat.toDigits 10 q) hr
  rw [digitsVal, Nat.ofDigitChars_ten_toDigits] at hscale
  simp [readUnsigned, readDigits, hip, hrest, intDigits_toDigits, readFraction, hfp, hend,
    readExponent, renderFraction_ne_nil, ← Int.sub_eq_add_neg, hscale]

theorem readMillionths_render (n : Int) : readMillionths (renderMillionths n) = some n := by
  have hr : n.natAbs % 1000000 < 1000000 := Nat.mod_lt _ (by omega)
  have hu := readUnsigned_render (n.natAbs / 1000000) hr
  rw [Nat.div_add_mod'] at hu
  by_cases hn : n < 0
  · rw [renderMillionths, if_pos hn, List.singleton_append, readMillionths, hu, Option.map_some,
      Option.some.injEq]
    omega
  · have hpos : ∀ cs, Nat.toDigits 10 (n.natAbs / 1000000) ++ '.' :: renderFraction
        (n.natAbs % 1000000) = '-' :: cs → False := by
      intro cs hcs
      obtain ⟨d, ds, hd⟩ := List.exists_cons_of_ne_nil
        (Nat.toDigits_ne_nil (n := n.natAbs / 1000000) (b := 10))
      have hdig := isDigit_toDigits (n.natAbs / 1000000) d (by simp [hd])
      rw [hd, List.cons_append] at hcs
      obtain ⟨rfl, -⟩ := List.cons.inj hcs
      cases hdig
    rw [renderMillionths, if_neg hn, List.nil_append, readMillionths.eq_2 _ hpos, hu,
      Option.map_some, Option.some.injEq, Int.ofNat_eq_natCast]
    omega

theorem isNumChar_of_isDigit {c : Char} (h : c.isDigit = true) : isNumChar c = true := by
  simp [isNumChar, h]

theorem renderMillionths_numChar (n : Int) : ∀ c ∈ renderMillionths n, isNumChar c = true := by
  intro c hc
  simp only [renderMillionths, List.mem_append, List.mem_cons] at hc
  rcases hc with hc | hc | rfl | hc
  · split at hc
    · obtain rfl := List.mem_singleton.mp hc
      rfl
    · cases hc
  · exact isNumChar_of_isDigit (isDigit_toDigits _ c hc)
  · rfl
  · exact isNumChar_of_isDigit (renderFraction_digits _ c hc)

instance : JsonNumber Int where
  render := renderMillionths
  read := readMillionths
  constant _ := none
  render_ne_nil n h := by simp [renderMillionths] at h
  render_numChar := renderMillionths_numChar
  read_render := readMillionths_render
  read_nil := by decide
  read_minus := by decide

/-! ## Natural numbers, written as integers -/

/-- A whole number, however it is written. -/
def readNat (cs : Text) : Option Nat := do
  let (ds, e) ← readDigits cs
  if 0 ≤ e then return digitsVal ds * 10 ^ e.toNat
  if digitsVal ds % 10 ^ (-e).toNat = 0 then return digitsVal ds / 10 ^ (-e).toNat
  none

example : [['1', '.', '0'], ['0', '1'], ['1', '.', '5']].map readNat = [some 1, none, none] := by
  decide

theorem readNat_toDigits (n : Nat) : readNat (Nat.toDigits 10 n) = some n := by
  have hip := takeWhile_digits (r := []) (isDigit_toDigits n) rfl
  have hrest := dropWhile_digits (r := []) (isDigit_toDigits n) rfl
  rw [List.append_nil] at hip hrest
  simp [readNat, readDigits, hip, hrest, intDigits_toDigits, readFraction, readExponent,
    digitsVal]

instance : JsonNumber Nat where
  render := Nat.toDigits 10
  read := readNat
  constant _ := none
  render_ne_nil _ := Nat.toDigits_ne_nil
  render_numChar n c h := isNumChar_of_isDigit (isDigit_toDigits n c h)
  read_render := readNat_toDigits
  read_nil := by decide
  read_minus := by decide

end SchedulingUtil.Lib.Json
