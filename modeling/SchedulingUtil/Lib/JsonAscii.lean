import SchedulingUtil.Lib.JsonRender

/-! # JSON in printable ASCII

The layout of Python's `json.dumps` as it is without options: on one line, and every other
character as one `\u` escape or as two. -/
namespace SchedulingUtil.Lib.Json

theorem hexVal_hexDigit : ∀ n < 16, hexVal (hexDigit n) = some n := by decide

/-- The escape of a code unit. -/
def escapeUnit (n : Nat) : Text :=
  ['\\', 'u', hexDigit (n / 4096), hexDigit (n / 256 % 16), hexDigit (n / 16 % 16),
    hexDigit (n % 16)]

theorem codeUnit_escapeUnit {n : Nat} (hn : n < 0x10000) (r : Text) :
    codeUnit ((escapeUnit n).drop 2 ++ r) = some (n, r) := by
  have hfirst := hexVal_hexDigit (n / 4096) (by omega)
  have hsecond := hexVal_hexDigit (n / 256 % 16) (by omega)
  have hthird := hexVal_hexDigit (n / 16 % 16) (by omega)
  have hfourth := hexVal_hexDigit (n % 16) (by omega)
  have hsum : 4096 * (n / 4096) + 256 * (n / 256 % 16) + 16 * (n / 16 % 16) + n % 16 = n := by
    omega
  simp [escapeUnit, codeUnit, hex4, hfirst, hsecond, hthird, hfourth, hsum]

/-- Surrogates for what does not fit one unit. -/
def escapeAscii (c : Char) : Text :=
  if c.toNat < 0x7f then escapeControl c
  else if c.toNat < 0x10000 then escapeUnit c.toNat
  else escapeUnit (0xd800 + (c.toNat - 0x10000) / 0x400) ++
    escapeUnit (0xdc00 + (c.toNat - 0x10000) % 0x400)

theorem toNat_not_surrogate (c : Char) : c.toNat < 0xd800 ∨ 0xdfff < c.toNat ∧ c.toNat < 0x110000 :=
  c.valid

theorem stringChar_escapeUnit (u : Option Char) {c : Char} (hc : c.toNat < 0x10000) (r : Text) :
    stringChar u (escapeUnit c.toNat ++ r) = some (c, r) := by
  have hunit := codeUnit_escapeUnit hc r
  have hvalid := toNat_not_surrogate c
  have hhigh : isHigh c.toNat = false := by simp [isHigh]; omega
  have hlow : isLow c.toNat = false := by simp [isLow]; omega
  simp [escapeUnit] at hunit
  simp [escapeUnit, stringChar, escape, unicodeEscape, hunit, hhigh, hlow, Char.ofNat_toNat]

theorem stringChar_escapePair (u : Option Char) {c : Char} (hc : 0x10000 ≤ c.toNat) (r : Text) :
    stringChar u (escapeUnit (0xd800 + (c.toNat - 0x10000) / 0x400) ++
      escapeUnit (0xdc00 + (c.toNat - 0x10000) % 0x400) ++ r) = some (c, r) := by
  have hvalid := toNat_not_surrogate c
  obtain ⟨high, hhigh⟩ : ∃ n, n = 0xd800 + (c.toNat - 0x10000) / 0x400 := ⟨_, rfl⟩
  obtain ⟨low, hlow⟩ : ∃ n, n = 0xdc00 + (c.toNat - 0x10000) % 0x400 := ⟨_, rfl⟩
  have hhighUnit := codeUnit_escapeUnit (n := high) (by omega) (escapeUnit low ++ r)
  have hlowUnit := codeUnit_escapeUnit (n := low) (by omega) r
  have hisHigh : isHigh high = true := by simp [isHigh]; omega
  have hisLow : isLow low = true := by simp [isLow]; omega
  have hsum : 0x10000 + 0x400 * (high - 0xd800) + (low - 0xdc00) = c.toNat := by omega
  rw [← hhigh, ← hlow]
  simp [escapeUnit] at hhighUnit hlowUnit
  simp [escapeUnit, stringChar, escape, unicodeEscape, highSurrogate, hhighUnit, hlowUnit, hisHigh,
    hisLow, hsum, Char.ofNat_toNat]

theorem stringChar_escapeAscii (u : Option Char) (c : Char) (r : Text) :
    stringChar u (escapeAscii c ++ r) = some (c, r) := by
  rw [escapeAscii]
  split
  · exact stringChar_escapeControl u c r
  · split
    · rename_i h
      exact stringChar_escapeUnit u h r
    · rename_i h
      exact stringChar_escapePair u (by omega) r

theorem newline_notMem_escapeUnit {n : Nat} (hn : n < 0x10000) : '\n' ∉ escapeUnit n := by
  have hdigit : ∀ n < 16, hexDigit n ≠ '\n' := by decide
  have hfirst := hdigit (n / 4096) (by omega)
  have hsecond := hdigit (n / 256 % 16) (by omega)
  have hthird := hdigit (n / 16 % 16) (by omega)
  have hfourth := hdigit (n % 16) (by omega)
  simp [escapeUnit, hfirst.symm, hsecond.symm, hthird.symm, hfourth.symm]

theorem newline_notMem_escapeAscii (c : Char) : '\n' ∉ escapeAscii c := by
  have hvalid := toNat_not_surrogate c
  rw [escapeAscii]
  split
  · exact newline_notMem_escapeControl c
  · split
    · rename_i h
      exact newline_notMem_escapeUnit h
    · rw [List.mem_append]
      rintro (h | h)
      · exact newline_notMem_escapeUnit (by omega) h
      · exact newline_notMem_escapeUnit (by omega) h

def ascii : Layout :=
  { spaced with escape := escapeAscii, stringChar_escape := stringChar_escapeAscii }

theorem oneLine_ascii : ascii.OneLine where
  line _ := List.not_mem_nil
  sep _ := by simp [ascii, spaced]
  colon := by simp [ascii, spaced]
  escape := newline_notMem_escapeAscii

end SchedulingUtil.Lib.Json
