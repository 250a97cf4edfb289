import Mathlib.Data.List.DropRight
import Mathlib.Tactic.IntervalCases
import SchedulingUtil.Lib.OrderedSet
import SchedulingUtil.RollingWindowRateLimiter
import SchedulingUtil.ScheduleCli

/-! # Options that hold several values

The texts of `--exit-codes-success` and `--exit-codes-neutral` on their way to the sets that
the jobs read: split at commas, stripped, each different text converted once. -/
namespace SchedulingUtil
open Lib Lib.Json

/-! ## Texts and numbers -/

namespace PyStr

/-- `str.strip`. -/
def strip (s : Text) : Text := (s.dropWhile isUnicodeSpace).rdropWhile isUnicodeSpace

/-- Where each run of ten decimal digits begins: Unicode 15, as Python 3.12 has it. -/
def decimalZeros : List Nat :=
  [0x30, 0x660, 0x6f0, 0x7c0, 0x966, 0x9e6, 0xa66, 0xae6, 0xb66, 0xbe6, 0xc66, 0xce6, 0xd66,
    0xde6, 0xe50, 0xed0, 0xf20, 0x1040, 0x1090, 0x17e0, 0x1810, 0x1946, 0x19d0, 0x1a80, 0x1a90,
    0x1b50, 0x1bb0, 0x1c40, 0x1c50, 0xa620, 0xa8d0, 0xa900, 0xa9d0, 0xa9f0, 0xaa50, 0xabf0,
    0xff10, 0x104a0, 0x10d30, 0x11066, 0x110f0, 0x11136, 0x111d0, 0x112f0, 0x11450, 0x114d0,
    0x11650, 0x116c0, 0x11730, 0x118e0, 0x11950, 0x11c50, 0x11d50, 0x11da0, 0x11f50, 0x16a60,
    0x16ac0, 0x16b50, 0x1d7ce, 0x1d7d8, 0x1d7e2, 0x1d7ec, 0x1d7f6, 0x1e140, 0x1e2f0, 0x1e4f0,
    0x1e950, 0x1fbf0]

def decimal? (c : Char) : Option Nat :=
  (decimalZeros.find? fun d => d ≤ c.toNat && c.toNat < d + 10).map (c.toNat - ·)

/-- The digits of a number, with single underscores between them. -/
def decimals? : Text → Option (List Nat)
  | [] => none
  | [c] => (decimal? c).map ([·])
  | c :: '_' :: cs => (decimal? c).bind fun d => (decimals? cs).map (d :: ·)
  | c :: c' :: cs => (decimal? c).bind fun d => (decimals? (c' :: cs)).map (d :: ·)

def ofDecimals (ds : List Nat) : Nat := ds.foldl (10 * · + ·) 0

/-- The default of `sys.set_int_max_str_digits`. -/
def maxStrDigits : Nat := 4300

def tooManyDigits (n : Nat) : PyException :=
  .valueError ("Exceeds the limit (" ++ toString maxStrDigits ++
    " digits) for integer string conversion: value has " ++ toString n ++
    " digits; use sys.set_int_max_str_digits() to increase the limit")

/-- Whether a minus stands in front, and what follows the sign. -/
def sign : Text → Bool × Text
  | '-' :: rest => (true, rest)
  | '+' :: rest => (false, rest)
  | rest => (false, rest)

/-- `int`, of a text without blanks around it. -/
def int (repr : Text → String) (s : Text) : Except PyException Int :=
  let (negative, rest) := sign s
  match decimals? rest with
  | none => .error (.valueError ("invalid literal for int() with base 10: " ++ repr s))
  | some ds =>
    if maxStrDigits < ds.length then .error (tooManyDigits ds.length)
    else .ok (if negative then -(ofDecimals ds) else ofDecimals ds)

/-- `str` of a number. -/
def ofInt : Int → Text
  | .ofNat n => Nat.toDigits 10 n
  | .negSucc n => '-' :: Nat.toDigits 10 (n + 1)

theorem toNat_of_isDigit {c : Char} (h : c.isDigit = true) : 48 ≤ c.toNat ∧ c.toNat ≤ 57 := by
  simp only [Char.isDigit, Bool.and_eq_true, decide_eq_true_eq] at h
  exact h

theorem decimal?_of_isDigit {c : Char} (h : c.isDigit = true) :
    decimal? c = some (c.toNat - '0'.toNat) := by
  obtain ⟨hlow, hhigh⟩ := toNat_of_isDigit h
  have hfirst : (decide (48 ≤ c.toNat) && decide (c.toNat < 48 + 10)) = true := by
    rw [decide_eq_true hlow, decide_eq_true (Nat.lt_succ_of_le hhigh)]
    rfl
  exact congrArg (Option.map (c.toNat - ·)) (List.find?_cons_of_pos hfirst)

theorem decimals?_of_digits {ds : Text} (hne : ds ≠ []) (h : ∀ c ∈ ds, c.isDigit = true) :
    decimals? ds = some (ds.map fun c => c.toNat - '0'.toNat) := by
  induction ds with
  | nil => exact absurd rfl hne
  | cons c cs ih =>
    have hc := decimal?_of_isDigit (h c (.head _))
    cases cs with
    | nil => rw [decimals?, hc]; rfl
    | cons c' cs =>
      have hrest := ih (List.cons_ne_nil _ _) fun x hx => h x (.tail _ hx)
      have hdigit := h c' (.tail _ (.head _))
      have hunder : c' ≠ '_' := by
        rintro rfl
        exact absurd hdigit (by decide)
      rw [decimals?, hc, hrest]
      · rfl
      · exact hunder

theorem decimals?_toDigits (n : Nat) : ∃ ds, decimals? (Nat.toDigits 10 n) = some ds ∧
    ds.length = (Nat.toDigits 10 n).length ∧ ofDecimals ds = n := by
  refine ⟨_, decimals?_of_digits ?_ (isDigit_toDigits n), List.length_map .., ?_⟩
  · exact Nat.toDigits_ne_nil
  · rw [ofDecimals, List.foldl_map, ← Nat.ofDigitChars_eq_foldl, Nat.ofDigitChars_ten_toDigits]

theorem sign_of_digits {ds : Text} (h : ∀ c ∈ ds, c.isDigit = true) : sign ds = (false, ds) := by
  unfold sign
  split
  · exact absurd (h '-' (.head _)) (by decide)
  · exact absurd (h '+' (.head _)) (by decide)
  · rfl

/-- `int` does not have too many digits to read. -/
def Fits (n : Int) : Prop := (Nat.toDigits 10 n.natAbs).length ≤ maxStrDigits

instance (n : Int) : Decidable (Fits n) := inferInstanceAs (Decidable (_ ≤ _))

theorem int_ofInt (repr : Text → String) {n : Int} (h : Fits n) : int repr (ofInt n) = .ok n := by
  obtain ⟨ds, hds, hlength, hvalue⟩ := decimals?_toDigits n.natAbs
  have hfits : ¬ maxStrDigits < ds.length := by
    rw [hlength]
    exact Nat.not_lt.mpr h
  have hsign : sign (ofInt n) = (decide (n < 0), Nat.toDigits 10 n.natAbs) := by
    cases n with
    | ofNat n => exact sign_of_digits (isDigit_toDigits n)
    | negSucc n => rw [decide_eq_true (Int.negSucc_lt_zero n)]; rfl
  simp only [int, hsign, hds, if_neg hfits, hvalue]
  by_cases hneg : n < 0
  · rw [decide_eq_true hneg, if_pos rfl]
    exact congrArg Except.ok (by omega)
  · rw [decide_eq_false hneg, if_neg Bool.false_ne_true]
    exact congrArg Except.ok (by omega)

end PyStr

/-! ## The callback -/

/-- What click gives to a callback: a tuple if the option may be repeated. Any other value is
`other`, a list and an ordered set included. -/
inductive ClickValue where
  | none
  | str (value : Text)
  | tuple (values : List Text)
  | other

/-- The first half of `create_click_csv_callback.param_callback`. -/
def uniqueStrings : ClickValue → Except PyException (OrderedSet Text)
  | .none => .ok .empty
  | .str value => .ok (split value)
  | .tuple values => .ok (split ([','].intercalate values))
  | .other => .error ⟨.exception, "TypeError", "Expected a string"⟩
where
  split (value : Text) : OrderedSet Text :=
    (OrderedSet.ofList ((value.splitOn ',').map PyStr.strip)).remove []

/-- `create_click_csv_callback(value_callback=…)`, with the calls of `value_callback`; without
one, the callback is `uniqueStrings`. -/
def createClickCsvCallback {T : Type} [DecidableEq T]
    (valueCallback : Text → Except PyException T) (value : ClickValue) :
    Traced Text PyException (OrderedSet T) := do
  let strings ← Traced.lift (uniqueStrings value)
  OrderedSet.ofEach valueCallback .empty strings.toList

/-- The texts that are given, of an option that may be repeated or not. -/
def ClickValue.texts? : ClickValue → Option (List Text)
  | .none => some []
  | .str value => some [value]
  | .tuple values => some values
  | .other => Option.none

/-- The items of the texts, those that are blank left out. -/
def csvItems (texts : List Text) : List Text :=
  (texts.flatMap fun text => (text.splitOn ',').map PyStr.strip).filter (· ≠ [])

theorem splitOn_intercalate_flatMap {texts : List Text} (hne : texts ≠ []) :
    ([','].intercalate texts).splitOn ',' = texts.flatMap (·.splitOn ',') := by
  induction texts with
  | nil => exact absurd rfl hne
  | cons text texts ih =>
    cases texts with
    | nil => simp [List.intercalate]
    | cons text' texts =>
      have hjoin : [','].intercalate (text :: text' :: texts) =
          text ++ ',' :: [','].intercalate (text' :: texts) := by
        simp [List.intercalate]
      rw [hjoin, List.splitOn_append_cons_self, ih (List.cons_ne_nil _ _)]
      rfl

theorem uniqueStrings_split (value : Text) :
    (uniqueStrings.split value).toList = (OrderedSet.ofList (csvItems [value])).toList := by
  simp only [csvItems, List.flatMap_cons, List.flatMap_nil, List.append_nil,
    OrderedSet.ofList_filter]
  rfl

/-- The texts of a repeated option are read as one. -/
theorem uniqueStrings_eq {value : ClickValue} {texts : List Text} (h : value.texts? = some texts) :
    uniqueStrings value = .ok (.ofList (csvItems texts)) := by
  cases value with
  | none => cases h; rfl
  | str value => cases h; exact congrArg Except.ok (OrderedSet.ext (uniqueStrings_split value))
  | tuple values =>
    cases h
    refine congrArg Except.ok (OrderedSet.ext ((uniqueStrings_split _).trans ?_))
    cases texts with
    | nil => rfl
    | cons text texts =>
      have hitems : csvItems [[','].intercalate (text :: texts)] = csvItems (text :: texts) := by
        simp only [csvItems, List.flatMap_cons, List.flatMap_nil, List.append_nil,
          splitOn_intercalate_flatMap (List.cons_ne_nil text texts), List.map_append,
          List.map_flatMap]
      rw [hitems]
  | other => cases h

/-- What a callback makes of the texts of an option. -/
structure ReadsItems {T : Type} [DecidableEq T] (valueCallback : Text → Except PyException T)
    (items : List Text) (m : Traced Text PyException (OrderedSet T)) : Prop where
  /-- As if every item were converted, in order. -/
  result : m.result = (items.mapM valueCallback).map .ofList
  once : m.effects.Nodup
  called : m.effects <+: (OrderedSet.ofList items).toList
  all : ∀ s, m.result = .ok s → ∀ item, item ∈ m.effects ↔ item ∈ items

theorem createClickCsvCallback_reads {T : Type} [DecidableEq T]
    (valueCallback : Text → Except PyException T) {value : ClickValue} {texts : List Text}
    (h : value.texts? = some texts) :
    ReadsItems valueCallback (csvItems texts) (createClickCsvCallback valueCallback value) := by
  have heq : createClickCsvCallback valueCallback value =
      OrderedSet.ofEach valueCallback .empty (OrderedSet.ofList (csvItems texts)).toList := by
    rw [createClickCsvCallback, uniqueStrings_eq h, Traced.bind_of_ok rfl]
    rfl
  obtain ⟨hpart, hall⟩ := OrderedSet.ofEach_effects valueCallback .empty
    (OrderedSet.ofList (csvItems texts)).toList
  rw [heq]
  refine ⟨?_, ?_, hpart, ?_⟩
  · rw [OrderedSet.ofEach_result, ← OrderedSet.ofList_mapM]
    rfl
  · exact (OrderedSet.ofList (csvItems texts)).nodup.sublist hpart.sublist
  · intro s hs item
    rw [hall s hs, OrderedSet.mem_ofList]

/-- **The callback converts each different item once**, in order and up to the first that
cannot be, and gives what converting every item of every text would give. -/
theorem csv_callback_reads {T : Type} [DecidableEq T]
    (valueCallback : Text → Except PyException T) (value : ClickValue) :
    match value.texts? with
    | some texts => ReadsItems valueCallback (csvItems texts)
        (createClickCsvCallback valueCallback value)
    | none => createClickCsvCallback valueCallback value =
        .raise ⟨.exception, "TypeError", "Expected a string"⟩ := by
  cases h : value.texts? with
  | none =>
    cases value with
    | other => rfl
    | _ => cases h
  | some texts => exact createClickCsvCallback_reads valueCallback h

/-! ## The exit codes -/

/-- The two options, `--exit-codes-success` read first. -/
def readExitCodeSets (repr : Text → String) (success neutral : ClickValue) :
    Except PyException ExitCodeSets := do
  let success ← (createClickCsvCallback (PyStr.int repr) success).result
  let neutral ← (createClickCsvCallback (PyStr.int repr) neutral).result
  validateExitCodeSets success.toList neutral.toList

/-- Items that name the codes, with blanks around them and blank items between them. -/
inductive Names : List Int → List Text → Prop where
  | nil : Names [] []
  | blank {codes : List Int} {items : List Text} {item : Text}
    (hblank : ∀ c ∈ item, isUnicodeSpace c = true) (h : Names codes items) :
    Names codes (item :: items)
  | code {codes : List Int} {items : List Text} {n : Int} (before after : Text)
    (hblank : ∀ c ∈ before ++ after, isUnicodeSpace c = true) (hfits : PyStr.Fits n)
    (h : Names codes items) : Names (n :: codes) ((before ++ PyStr.ofInt n ++ after) :: items)

theorem strip_blank {s : Text} (h : ∀ c ∈ s, isUnicodeSpace c = true) : PyStr.strip s = [] := by
  rw [PyStr.strip, List.dropWhile_eq_nil_iff.mpr h, List.rdropWhile_nil]

theorem strip_padded {before s after : Text}
    (hblank : ∀ c ∈ before ++ after, isUnicodeSpace c = true)
    (hs : ∀ c ∈ s, isUnicodeSpace c = false) : PyStr.strip (before ++ s ++ after) = s := by
  have hbefore : ∀ c ∈ before, isUnicodeSpace c = true :=
    fun c hc => hblank c (List.mem_append_left _ hc)
  have hafter : ∀ c ∈ after.reverse, isUnicodeSpace c = true :=
    fun c hc => hblank c (List.mem_append_right _ (List.mem_reverse.mp hc))
  cases s with
  | nil => rw [List.append_nil, strip_blank hblank]
  | cons a s =>
    have hleft : (before ++ a :: s ++ after).dropWhile isUnicodeSpace = a :: s ++ after := by
      rw [List.append_assoc, List.dropWhile_append_of_pos hbefore]
      exact List.dropWhile_cons_of_neg (by simp [hs a (.head _)])
    have hright : (a :: s).reverse.dropWhile isUnicodeSpace = (a :: s).reverse := by
      cases hr : (a :: s).reverse with
      | nil => rfl
      | cons b r =>
        have hb : b ∈ a :: s := List.mem_reverse.mp (hr ▸ List.mem_cons_self)
        exact List.dropWhile_cons_of_neg (by simp [hs b hb])
    rw [PyStr.strip, hleft, List.rdropWhile, List.reverse_append,
      List.dropWhile_append_of_pos hafter, hright, List.reverse_reverse]

/-- The characters of a number are neither blanks nor commas. -/
theorem ofInt_chars (n : Int) :
    ∀ c ∈ PyStr.ofInt n, isUnicodeSpace c = false ∧ c ≠ ',' := by
  have hdigit : ∀ c : Char, c.isDigit = true → isUnicodeSpace c = false ∧ c ≠ ',' := by
    intro c hc
    obtain ⟨hlow, hhigh⟩ := PyStr.toNat_of_isDigit hc
    rw [← Char.ofNat_toNat c]
    generalize c.toNat = k at hlow hhigh
    interval_cases k <;> decide
  intro c hc
  cases n with
  | ofNat n => exact hdigit c (isDigit_toDigits n c hc)
  | negSucc n =>
    rcases List.mem_cons.mp hc with rfl | hc
    · decide
    · exact hdigit c (isDigit_toDigits (n + 1) c hc)

theorem Names.no_comma {codes : List Int} {items : List Text} (h : Names codes items) :
    ∀ item ∈ items, ',' ∉ item := by
  have hspace : ∀ s : Text, (∀ c ∈ s, isUnicodeSpace c = true) → ',' ∉ s :=
    fun s hs hmem => absurd (hs ',' hmem) (by decide)
  induction h with
  | nil => simp
  | blank hblank _ ih => exact List.forall_mem_cons.mpr ⟨hspace _ hblank, ih⟩
  | code before after hblank _ _ ih =>
    refine List.forall_mem_cons.mpr ⟨?_, ih⟩
    intro hmem
    rcases List.mem_append.mp hmem with hmem | hmem
    · rcases List.mem_append.mp hmem with hmem | hmem
      · exact hspace _ hblank (List.mem_append_left _ hmem)
      · exact (ofInt_chars _ _ hmem).2 rfl
    · exact hspace _ hblank (List.mem_append_right _ hmem)

theorem ofInt_ne_nil (n : Int) : PyStr.ofInt n ≠ [] := by
  cases n with
  | ofNat n => exact Nat.toDigits_ne_nil
  | negSucc n => exact List.cons_ne_nil _ _

theorem Names.filter_strip {codes : List Int} {items : List Text} (h : Names codes items) :
    (items.map PyStr.strip).filter (· ≠ []) = codes.map PyStr.ofInt := by
  induction h with
  | nil => rfl
  | blank hblank _ ih => rwa [List.map_cons, strip_blank hblank, List.filter_cons_of_neg (by simp)]
  | @code _ _ n before after hblank _ _ ih =>
    rw [List.map_cons, strip_padded hblank fun c hc => (ofInt_chars n c hc).1,
      List.filter_cons_of_pos (by simpa using ofInt_ne_nil n), ih, List.map_cons]

theorem Names.mapM_int {codes : List Int} {items : List Text} (h : Names codes items)
    (repr : Text → String) : (codes.map PyStr.ofInt).mapM (PyStr.int repr) = .ok codes := by
  induction h with
  | nil => rfl
  | blank _ _ ih => exact ih
  | code _ _ _ hfits _ ih =>
    rw [List.map_cons, List.mapM_cons, PyStr.int_ofInt repr hfits, ih]
    rfl

/-- An option with items that name the codes. -/
theorem Names.callback {codes : List Int} {items : List Text} (h : Names codes items)
    (repr : Text → String) :
    (createClickCsvCallback (PyStr.int repr) (.str ([','].intercalate items))).result =
      .ok (.ofList codes) := by
  have hitems : csvItems [[','].intercalate items] = codes.map PyStr.ofInt := by
    rw [← h.filter_strip, csvItems, List.flatMap_cons, List.flatMap_nil, List.append_nil]
    cases items with
    | nil => rfl
    | cons item items => rw [List.splitOn_intercalate ',' h.no_comma (List.cons_ne_nil _ _)]
  have htexts : (ClickValue.str ([','].intercalate items)).texts? =
      some [[','].intercalate items] := rfl
  have hreads := (createClickCsvCallback_reads (PyStr.int repr) htexts).result
  rw [hreads, hitems, h.mapM_int repr]
  rfl

/-- **Exit codes as they are written**: the outcome of a code is the one of the option that
names it, in whatever layout and however often; codes that both name are all refused, each
mentioned once and in the order of the successful ones. -/
theorem exit_codes_as_written (repr : Text → String) {success neutral : List Int}
    {successItems neutralItems : List Text} (hsuccess : Names success successItems)
    (hneutral : Names neutral neutralItems) :
    match readExitCodeSets repr (.str ([','].intercalate successItems))
      (.str ([','].intercalate neutralItems)) with
    | .ok sets => ∀ c, (c ∉ success ∨ c ∉ neutral) ∧ sets.outcomeOf c =
        if c ∈ neutral then .neutral else if c ∈ success then .success else .failure
    | .error e => ∃ overlap : List Int, overlap ≠ [] ∧
        overlap.Sublist (OrderedSet.ofList success).toList ∧
        (∀ c, c ∈ overlap ↔ c ∈ success ∧ c ∈ neutral) ∧
        e = .usageError ("Exit codes cannot be both successful and neutral: " ++
          ", ".intercalate (overlap.map toString) ++ ".") := by
  have hread : readExitCodeSets repr (.str ([','].intercalate successItems))
      (.str ([','].intercalate neutralItems)) =
        validateExitCodeSets (OrderedSet.ofList success).toList
          (OrderedSet.ofList neutral).toList := by
    rw [readExitCodeSets, hsuccess.callback, hneutral.callback]
    rfl
  rw [hread]
  unfold validateExitCodeSets
  dsimp only
  split
  · rename_i sets hsets
    split at hsets
    · rename_i hnone
      cases hsets
      intro c
      constructor
      · by_contra hboth
        push Not at hboth
        have hmem : c ∈ (OrderedSet.ofList success).toList.filter
            (· ∈ (OrderedSet.ofList neutral).toList) := by
          simpa using hboth
        rw [hnone] at hmem
        cases hmem
      · simp [ExitCodeSets.outcomeOf]
    · cases hsets
  · rename_i e he
    split at he
    · cases he
    · rename_i hsome
      cases he
      refine ⟨_, hsome, List.filter_sublist, ?_, rfl⟩
      intro c
      simp

/-- `0, 2,0` as the successful codes and `,3` as the neutral ones. -/
theorem exit_codes_as_written_apart : ∃ sets, readExitCodeSets (fun _ => "")
      (.str ['0', ',', ' ', '2', ',', '0']) (.str [',', '3']) = .ok sets ∧
    sets.outcomeOf 2 = .success ∧ sets.outcomeOf 3 = .neutral ∧ sets.outcomeOf 1 = .failure := by
  have hspace : ∀ c ∈ [' '] ++ [], isUnicodeSpace c = true := by
    intro c hc
    rw [List.append_nil, List.mem_singleton] at hc
    rw [hc]
    rfl
  have hsuccess : Names [0, 2, 0] [['0'], [' ', '2'], ['0']] :=
    .code [] [] (by simp) (by decide) (.code [' '] [] hspace (by decide)
      (.code [] [] (by simp) (by decide) .nil))
  have hneutral : Names [3] [[], ['3']] :=
    .blank (by simp) (.code [] [] (by simp) (by decide) .nil)
  have hwritten : ∀ c, (c ∉ [0, 2, 0] ∨ c ∉ [3]) ∧ ExitCodeSets.outcomeOf ⟨{0, 2}, {3}, _⟩ c =
      if c ∈ [3] then .neutral else if c ∈ [0, 2, 0] then .success else .failure :=
    exit_codes_as_written (fun _ => "") hsuccess hneutral
  exact ⟨_, rfl, (hwritten 2).2, (hwritten 3).2, (hwritten 1).2⟩

end SchedulingUtil
