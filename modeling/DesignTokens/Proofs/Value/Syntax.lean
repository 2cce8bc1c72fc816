import DesignTokens.Proofs.Reader
import DesignTokens.Value.Grammar

/-!
# The language of token values

Numbers, colours, sizes and durations are regular languages, and a text is read as one of these
values exactly if, without the white space around it, it is a word of the language. Each part of a
value is read as far as it goes, and what comes after it in a word can not be taken for more of it:
no digit or point comes after a number, no blank after blanks, no `a` after a name that may end in
one.
-/

open scoped Computability

namespace DesignTokens
namespace Value

open Text (Reader Apart Opens anyCase single starts)

/-! ## Languages -/

namespace Syntax

def blank : Language Char := {[' ']} + {['\t']}

/-- Blanks, perhaps none. -/
def blanks : Language Char := blank∗

/-- Decimal digits, at least one. -/
def digits : Language Char := single Char.isDigit * (single Char.isDigit)∗

def fraction : Language Char := {['.']} * digits

/-- The digits of a number, with a point between, before or nowhere. -/
def magnitude : Language Char := digits * (1 + fraction) + fraction

/-- A number: `[+-]?(D+(.D+)?|.D+)`. -/
def number : Language Char := (1 + ({['+']} + {['-']})) * magnitude

/-- A comma with any blanks around it, or blanks, at least one. -/
def separator : Language Char := blanks * {[',']} * blanks + blank * blanks

def percentable : Language Char := number * (1 + {['%']})

def hue : Language Char := number * (1 + anyCase "deg".toList)

def alpha : Language Char := blanks * ({[',']} + {['/']}) * blanks * percentable

/-- Three components and an optional alpha between parentheses. -/
def arguments (first other : Language Char) : Language Char :=
  blanks * {['(']} * blanks * first * separator * other * separator * other * (1 + alpha) *
    blanks * {[')']}

def rgb : Language Char :=
  (anyCase "rgba".toList + anyCase "rgb".toList) * arguments percentable percentable

/-- A colour by hue, saturation and lightness. -/
def hsl : Language Char :=
  (anyCase "hsla".toList + anyCase "hsl".toList) * arguments hue percentable

def hexDigit : Language Char :=
  single fun c => ('0' ≤ c && c ≤ '9') || ('a' ≤ c && c ≤ 'f') || ('A' ≤ c && c ≤ 'F')

def hex : Language Char := {['#']} * (hexDigit ^ 3 + hexDigit ^ 4 + hexDigit ^ 6 + hexDigit ^ 8)

def color : Language Char := hex + rgb + hsl

def size : Language Char :=
  number * (1 + anyCase "px".toList + anyCase "rem".toList + anyCase "em".toList +
    anyCase "pt".toList)

def duration : Language Char :=
  number * (1 + anyCase "ms".toList + anyCase "s".toList)

end Syntax

namespace Grammar

variable {α β : Type} {first : Reader α} {other : Reader β} {L M : Language Char}
  {s rest word : List Char}

/-! ## Characters -/

def continuesNumber (c : Char) : Bool :=
  c.isDigit || c = '.'

def opensNumber (c : Char) : Bool :=
  c.isDigit || c = '.' || c = '+' || c = '-'

/-- The characters that may come after a component of a colour. -/
def endsComponent (c : Char) : Bool :=
  c ∈ [' ', '\t', ',', '/', ')']

/-- A letter of an ASCII word, in any case. -/
def isLetter (c : Char) : Bool :=
  c.toLower.isLower

theorem apart_eq {x : Char} {holds : Char → Bool} (h : holds x = false) : Apart (· = x) holds := by
  intro c hc
  rwa [of_decide_eq_true hc]

theorem apart_isSpace {holds : Char → Bool} (hspace : holds ' ' = false)
    (htab : holds '\t' = false) : Apart isSpace holds := by
  intro c hc
  simp only [isSpace, Bool.or_eq_true, decide_eq_true_eq] at hc
  rcases hc with rfl | rfl
  · exact hspace
  · exact htab

theorem apart_chars {chars : List Char} {holds : Char → Bool} (h : chars.any holds = false) :
    Apart (fun c => c ∈ chars) holds :=
  fun c hc => Bool.eq_false_iff.2 (List.any_eq_false.1 h c (of_decide_eq_true hc))

theorem toNat_toLower (c : Char) :
    c.toLower.toNat = if 65 ≤ c.toNat ∧ c.toNat ≤ 90 then c.toNat + 32 else c.toNat := by
  have hupper : c.val ≥ 'A'.val ∧ c.val ≤ 'Z'.val ↔ 65 ≤ c.toNat ∧ c.toNat ≤ 90 :=
    and_congr UInt32.le_iff_toNat_le UInt32.le_iff_toNat_le
  split
  · rename_i h
    have hlt : c.toNat + 32 < 2 ^ 32 := by omega
    calc
      c.toLower.toNat = (c.val + 32).toNat := congrArg Char.toNat (dif_pos (hupper.2 h))
      _ = (c.toNat + 32) % 2 ^ 32 := UInt32.toNat_add ..
      _ = c.toNat + 32 := Nat.mod_eq_of_lt hlt
  · rename_i h
    exact congrArg Char.toNat (dif_neg fun hval => h (hupper.1 hval))

/-- A letter in any case is no part of a number. -/
theorem apart_isLetter_continuesNumber : Apart isLetter continuesNumber := by
  refine Apart.symm fun c hc => Bool.eq_false_iff.2 fun hletter => ?_
  have hlower : 97 ≤ c.toLower.toNat :=
    UInt32.le_iff_toNat_le.1 (of_decide_eq_true (Bool.and_eq_true_iff.1 hletter).1)
  rw [toNat_toLower] at hlower
  simp only [continuesNumber, Bool.or_eq_true, decide_eq_true_eq, Char.isDigit_iff_toNat] at hc
  rcases hc with ⟨-, hc⟩ | rfl
  · have hle : c.toNat ≤ 57 := hc
    split at hlower
    · omega
    · omega
  · exact absurd hlower (by decide)

theorem opens_anyCase_isLetter (h : starts Char.isLower s = true) :
    Opens (anyCase s) isLetter := by
  cases s with
  | nil =>
      cases h
  | cons x s =>
      refine Text.opens_anyCase.imp fun c hc => ?_
      rw [isLetter, of_decide_eq_true hc]
      exact h

/-! ## Numbers -/

theorem opens_digits : Opens Syntax.digits Char.isDigit :=
  Text.opens_single.mul

theorem opens_fraction : Opens Syntax.fraction (· = '.') :=
  (Text.opens_singleton rfl).mul

theorem opens_magnitude : Opens Syntax.magnitude continuesNumber := by
  refine (opens_digits.mul.imp fun c hc => ?_).add (Text.opens_singleton rfl).mul
  rw [continuesNumber, hc, Bool.true_or]

theorem opens_number : Opens Syntax.number opensNumber := by
  refine ((Text.opens_singleton rfl).add (Text.opens_singleton rfl)).optional_mul
    (opens_magnitude.imp fun c hc => ?_)
  rw [continuesNumber] at hc
  simp only [opensNumber, hc, Bool.true_or]

theorem takes_fraction :
    fraction.Takes Syntax.fraction fun rest => starts Char.isDigit rest = false :=
  (Reader.takes_char '.').after (Reader.takes_run1 _) fun _ _ _ _ => trivial

theorem not_isDigit_of_not_continuesNumber (h : starts continuesNumber s = false) :
    starts Char.isDigit s = false :=
  Text.not_starts_imp (fun c hc => by rw [continuesNumber, hc, Bool.true_or]) h

theorem fraction_eq_none (h : starts continuesNumber s = false) : fraction s = none := by
  refine takes_fraction.eq_none opens_fraction (Text.not_starts_imp (fun c hc => ?_) h)
  rw [continuesNumber, hc, Bool.or_true]

theorem takes_magnitude :
    magnitude.Takes Syntax.magnitude fun rest => starts continuesNumber rest = false := by
  have hpoint : Apart (· = '.') Char.isDigit := apart_eq rfl
  have hwhole : ((Reader.run1 Char.isDigit).pair fraction.optional).Takes
      (Syntax.digits * (1 + Syntax.fraction)) fun rest => starts continuesNumber rest = false := by
    -- The point is passed over unless digits come after it.
    refine (Reader.takes_run1 _).pair_optional takes_fraction _ ?_ fun rest hrest => ?_
    · exact fun word hword rest _ => opens_fraction.not_starts hpoint hword rest
    · have hdigit := not_isDigit_of_not_continuesNumber hrest
      exact ⟨hdigit, hdigit, fraction_eq_none hrest⟩
  have hplaces := takes_fraction.imp fun rest => not_isDigit_of_not_continuesNumber
  refine (hwhole.map _).orElse (hplaces.map _) fun word hword rest _ => ?_
  exact (hwhole.map _).eq_none opens_digits.mul (opens_fraction.not_starts hpoint hword rest)

theorem takes_sign : sign.Takes ({['+']} + {['-']}) fun _ => True := by
  constructor
  case sound =>
    intro s a rest hread
    unfold sign at hread
    split at hread
    · cases hread
      exact ⟨['+'], Or.inl rfl, rfl⟩
    · cases hread
      exact ⟨['-'], Or.inr rfl, rfl⟩
    · cases hread
  case complete =>
    rintro word rest (rfl | rfl) -
    · exact ⟨false, rfl⟩
    · exact ⟨true, rfl⟩

theorem takes_number :
    number.Takes Syntax.number fun rest => starts continuesNumber rest = false := by
  have hsigns : Opens ({['+']} + {['-']}) fun c => c ∈ ['+', '-'] :=
    (Text.opens_singleton rfl).add (Text.opens_singleton rfl)
  have hapart : Apart continuesNumber fun c => c ∈ ['+', '-'] := (apart_chars rfl).symm
  exact (takes_sign.optional.pair takes_magnitude fun word hword rest _ =>
    ⟨trivial, takes_sign.eq_none hsigns (opens_magnitude.not_starts hapart hword rest)⟩).map _

/-- A number with something after it that may be missing. -/
theorem takes_suffixed {suffix : Reader α} (h : suffix.Takes L fun _ => True)
    {opensSuffix : Char → Bool} (hopens : Opens L opensSuffix)
    (hapart : Apart opensSuffix continuesNumber) {follow : List Char → Prop}
    (hfollow : ∀ rest, follow rest →
      starts continuesNumber rest = false ∧ starts opensSuffix rest = false) :
    (number.pair suffix.optional).Takes (Syntax.number * (1 + L)) follow := by
  refine takes_number.pair_optional h follow ?_ fun rest hrest => ?_
  · exact fun word hword rest _ => hopens.not_starts hapart hword rest
  · exact ⟨(hfollow rest hrest).1, trivial, h.eq_none hopens (hfollow rest hrest).2⟩

/-! ## Components -/

/-- A number with or without a percent sign is taken up to the end of the component. -/
theorem takes_percentable :
    percentable.Takes Syntax.percentable fun rest => starts endsComponent rest = true := by
  have hpercent : Opens {['%']} (· = '%') := Text.opens_singleton rfl
  refine (takes_suffixed (Reader.takes_char '%') hpercent (apart_eq rfl)
    fun rest hrest => ⟨?_, ?_⟩).map _
  · exact (apart_chars rfl).not_starts hrest
  · exact (apart_chars rfl).not_starts hrest

/-- A hue is taken up to the end of the component, with its unit. -/
theorem takes_hue : hue.Takes Syntax.hue fun rest => starts endsComponent rest = true := by
  refine (takes_suffixed (Reader.takes_word _) (opens_anyCase_isLetter rfl)
    apart_isLetter_continuesNumber fun rest hrest => ⟨?_, ?_⟩).map _
  · exact (apart_chars rfl).not_starts hrest
  · exact (apart_chars rfl).not_starts hrest

/-! ## Separators -/

theorem blank_eq : Syntax.blank = single isSpace := by
  ext word
  constructor
  · rintro (rfl | rfl)
    · exact ⟨' ', rfl, rfl⟩
    · exact ⟨'\t', rfl, rfl⟩
  · rintro ⟨c, hc, rfl⟩
    simp only [isSpace, Bool.or_eq_true, decide_eq_true_eq] at hc
    rcases hc with rfl | rfl
    · exact Or.inl rfl
    · exact Or.inr rfl

theorem opens_blank {holds : Char → Bool} (hspace : holds ' ' = true) (htab : holds '\t' = true) :
    Opens Syntax.blank holds :=
  (Text.opens_singleton hspace).add (Text.opens_singleton htab)

theorem takes_spaces :
    spaces.Takes Syntax.blanks fun rest => starts isSpace rest = false := by
  rw [Syntax.blanks, blank_eq]
  exact (Reader.takes_run isSpace).map _

/-- Blanks around a word that begins with none. -/
theorem takes_spaced {reader : Reader α} (h : reader.Takes L fun _ => True)
    {opensWord : Char → Bool} (hopens : Opens L opensWord) (hapart : Apart opensWord isSpace) :
    ((spaces.after reader).after spaces).Takes (Syntax.blanks * L * Syntax.blanks)
      fun rest => starts isSpace rest = false :=
  (takes_spaces.after h fun _ hword rest _ => hopens.not_starts hapart hword rest).after
    takes_spaces fun _ _ _ _ => trivial

theorem not_isSpace_of_opensNumber (h : starts opensNumber s = true) :
    starts isSpace s = false :=
  (apart_isSpace rfl rfl).symm.not_starts h

/-- The second way to separate components is tried where no comma comes after the blanks. -/
theorem takes_listSeparator :
    listSeparator.Takes Syntax.separator fun rest => starts opensNumber rest = true := by
  have hcomma : Opens {[',']} (· = ',') := Text.opens_singleton rfl
  have hblanks : ((Reader.run1 isSpace).map fun _ => ()).Takes (Syntax.blank * Syntax.blanks)
      fun rest => starts isSpace rest = false := by
    rw [Syntax.blanks, blank_eq]
    exact (Reader.takes_run1 isSpace).map _
  refine ((takes_spaced (Reader.takes_char ',') hcomma (apart_eq rfl)).imp
    fun rest => not_isSpace_of_opensNumber).orElse
      (hblanks.imp fun rest => not_isSpace_of_opensNumber) fun word hword rest hrest => ?_
  -- The first way skips the blanks and finds no comma after them.
  have hmem : word ∈ Syntax.blanks := by
    rw [Syntax.blanks, ← Language.one_add_self_mul_kstar_eq_kstar]
    exact Or.inr hword
  have hrefused : Reader.char ',' rest = none :=
    (Reader.takes_char ',').eq_none hcomma ((apart_eq rfl).symm.not_starts hrest)
  exact Reader.after_eq_none
    (takes_spaces.after_eq_none hmem (not_isSpace_of_opensNumber hrest) hrefused)

theorem opens_percentable : Opens Syntax.percentable opensNumber :=
  opens_number.mul

theorem takes_alphaMark :
    (Reader.orElse (Reader.char ',') (Reader.char '/')).Takes ({[',']} + {['/']})
      fun _ => True := by
  refine (Reader.takes_char ',').orElse (Reader.takes_char '/') ?_
  rintro word rfl rest -
  rfl

theorem takes_alpha :
    (alphaSeparator.after alpha).Takes Syntax.alpha
      fun rest => starts endsComponent rest = true := by
  have hopens : Opens ({[',']} + {['/']}) fun c => c ∈ [',', '/'] :=
    (Text.opens_singleton rfl).add (Text.opens_singleton rfl)
  refine (takes_spaced takes_alphaMark hopens (apart_chars rfl)).after
    (takes_percentable.map _) fun word hword rest _ => ?_
  exact not_isSpace_of_opensNumber (Text.starts_append (opens_percentable word hword))

/-- There is no alpha where the parenthesis is closed. -/
theorem alpha_eq_none (hword : word ∈ Syntax.blanks * {[')']}) :
    (alphaSeparator.after alpha) (word ++ rest) = none := by
  rcases Language.mem_mul.1 hword with ⟨front, hfront, close, rfl, rfl⟩
  rw [List.append_assoc]
  exact Reader.after_eq_none (Reader.after_eq_none (takes_spaces.after_eq_none hfront rfl rfl))

/-! ## Arguments -/

theorem opens_blanks_mul {holds : Char → Bool} (hspace : holds ' ' = true)
    (htab : holds '\t' = true) (h : Opens L holds) : Opens (Syntax.blanks * L) holds :=
  (opens_blank hspace htab).kstar_mul h

theorem opens_separator : Opens Syntax.separator endsComponent :=
  (opens_blanks_mul rfl rfl (Text.opens_singleton rfl)).mul.add (opens_blank rfl rfl).mul

theorem opens_alpha : Opens Syntax.alpha endsComponent :=
  (opens_blanks_mul rfl rfl
    ((Text.opens_singleton rfl).add (Text.opens_singleton rfl))).mul.mul

theorem opens_closing : Opens (Syntax.blanks * {[')']}) endsComponent :=
  opens_blanks_mul rfl rfl (Text.opens_singleton rfl)

/-- The arguments as they are read: the opening, the components with the alpha, the closing. -/
theorem arguments_eq (L M : Language Char) :
    Syntax.arguments L M =
      Syntax.blanks * {['(']} * Syntax.blanks *
        (L * (Syntax.separator * M * (Syntax.separator * M)) * (1 + Syntax.alpha)) *
        (Syntax.blanks * {[')']}) := by
  simp only [Syntax.arguments, mul_assoc]

/-- The arguments of a color function are taken whole, in parentheses. -/
theorem takes_arguments (hfirst : first.Takes L fun rest => starts endsComponent rest = true)
    (hother : other.Takes M fun rest => starts endsComponent rest = true)
    (hopensFirst : Opens L opensNumber) (hopensOther : Opens M opensNumber) :
    (arguments first other).Takes (Syntax.arguments L M) fun _ => True := by
  have hparenthesis : Opens {['(']} (· = '(') := Text.opens_singleton rfl
  have hopening := takes_spaced (Reader.takes_char '(') hparenthesis (apart_eq rfl)
  have hnext := takes_listSeparator.after hother fun word hword rest _ =>
    Text.starts_append (hopensOther word hword)
  have hcomponents := hfirst.pair
    (hnext.pair hnext fun word hword rest _ =>
      Text.starts_append (opens_separator.mul word hword))
    fun word hword rest _ => Text.starts_append (opens_separator.mul.mul word hword)
  -- Without an alpha the closing comes next, which no alpha can be read from.
  have hinner := hcomponents.pair_optional takes_alpha
    (fun rest => starts endsComponent rest = true ∧ (alphaSeparator.after alpha) rest = none)
    (fun word hword rest _ => Text.starts_append (opens_alpha word hword))
    fun rest hrest => ⟨hrest.1, hrest.1, hrest.2⟩
  have hopened := hopening.after hinner fun word hword rest _ =>
    not_isSpace_of_opensNumber (Text.starts_append (hopensFirst.mul.mul word hword))
  have hclosing : (spaces.after (Reader.char ')')).Takes (Syntax.blanks * {[')']}) fun _ => True :=
    takes_spaces.after (Reader.takes_char ')') (by rintro word rfl rest -; rfl)
  have hwhole := hopened.pair hclosing fun word hword rest _ =>
    ⟨Text.starts_append (opens_closing word hword), alpha_eq_none hword⟩
  rw [arguments_eq]
  exact hwhole.map (·.1)

theorem opens_arguments : Opens (Syntax.arguments L M) fun c => c ∈ [' ', '\t', '('] := by
  rw [arguments_eq]
  exact (opens_blanks_mul rfl rfl (Text.opens_singleton rfl)).mul.mul.mul

/-! ## Functions -/

/-- The longer name ends with an `a` that does not come after the shorter one. -/
theorem takes_functionName {long short : String} (h : long.toList = short.toList ++ ['a']) :
    (functionName long short).Takes (anyCase long.toList + anyCase short.toList)
      fun rest => starts (·.toLower = 'a') rest = false := by
  refine ((Reader.takes_word _).imp fun _ _ => trivial).orElse
    ((Reader.takes_word _).imp fun _ _ => trivial) fun word hword rest hrest => ?_
  -- The longer name could only be read with the character that follows the shorter one.
  have hshort : word.map Char.toLower = short.toList := hword
  refine Reader.word_eq_none fun hfront => ?_
  rw [h, List.map_append, hshort, List.prefix_append_right_inj] at hfront
  cases rest with
  | nil =>
      simp at hfront
  | cons c rest =>
      have hc : 'a' = c.toLower := by simpa using hfront
      exact of_decide_eq_false hrest hc.symm

/-- A color function is taken under its long and its short name. -/
theorem takes_function {long short : String} (h : long.toList = short.toList ++ ['a'])
    (hfirst : first.Takes L fun rest => starts endsComponent rest = true)
    (hother : other.Takes M fun rest => starts endsComponent rest = true)
    (hopensFirst : Opens L opensNumber) (hopensOther : Opens M opensNumber) :
    ((functionName long short).after (arguments first other)).Takes
      ((anyCase long.toList + anyCase short.toList) * Syntax.arguments L M) fun _ => True :=
  (takes_functionName h).after (takes_arguments hfirst hother hopensFirst hopensOther)
    fun _ hword rest _ => opens_arguments.not_starts (apart_chars rfl) hword rest

/-- The reader of RGB colors takes the texts of their syntax. -/
theorem takes_rgb : rgb.Takes Syntax.rgb fun _ => True :=
  (takes_function (by decide) (takes_percentable.map _) (takes_percentable.map _)
    opens_percentable opens_percentable).map _

/-- The reader of HSL colors takes the texts of their syntax. -/
theorem takes_hsl : hsl.Takes Syntax.hsl fun _ => True :=
  (takes_function (by decide) takes_hue (takes_percentable.map _)
    opens_number.mul opens_percentable).map _

theorem opens_rgb : Opens Syntax.rgb (·.toLower = 'r') :=
  Opens.mul (Text.opens_anyCase.add Text.opens_anyCase)

theorem opens_hsl : Opens Syntax.hsl (·.toLower = 'h') :=
  Opens.mul (Text.opens_anyCase.add Text.opens_anyCase)

/-! ## Hexadecimal digits -/

theorem isHexDigit_eq (c : Char) :
    isHexDigit c =
      (('0' ≤ c && c ≤ '9') || ('a' ≤ c && c ≤ 'f') || ('A' ≤ c && c ≤ 'F')) := by
  have hle : ∀ {a b : Char}, a ≤ b ↔ a.toNat ≤ b.toNat := UInt32.le_iff_toNat_le
  rw [Bool.eq_iff_iff]
  simp only [isHexDigit, Bool.or_eq_true, Bool.and_eq_true, decide_eq_true_eq,
    Char.isDigit_iff_toNat, hle, toNat_toLower, Char.reduceToNat]
  split
  · omega
  · omega

theorem hexDigit_eq : Syntax.hexDigit = single isHexDigit := by
  rw [Syntax.hexDigit, funext isHexDigit_eq]

/-- Colors are written with three, four, six or eight digits. -/
theorem isSome_hexColor?_iff {digits : List Char} :
    (hexColor? digits).isSome = true ↔ digits.length = 3 ∨ digits.length = 4 ∨
      digits.length = 6 ∨ digits.length = 8 := by
  -- One case for each length up to eight, and one for all longer texts.
  rcases digits with _ | ⟨a, _ | ⟨b, _ | ⟨c, _ | ⟨d, _ | ⟨e, _ | ⟨f, _ | ⟨g, _ | ⟨h, _ |
    ⟨i, rest⟩⟩⟩⟩⟩⟩⟩⟩⟩
  all_goals simp [hexColor?]

/-- A hexadecimal color is a number sign and as many digits as a color can have. -/
theorem mem_hex_iff :
    word ∈ Syntax.hex ↔ ∃ digits, word = '#' :: digits ∧ (hexColor? digits).isSome = true ∧
      ∀ c ∈ digits, isHexDigit c = true := by
  have hdigits : ∀ digits, digits ∈ Syntax.hexDigit ^ 3 + Syntax.hexDigit ^ 4 +
      Syntax.hexDigit ^ 6 + Syntax.hexDigit ^ 8 ↔
        (hexColor? digits).isSome = true ∧ ∀ c ∈ digits, isHexDigit c = true := by
    intro digits
    simp only [hexDigit_eq, Language.mem_add, Text.mem_single_pow_iff, isSome_hexColor?_iff]
    tauto
  constructor
  · rintro ⟨front, rfl, digits, hmem, rfl⟩
    exact ⟨digits, rfl, (hdigits digits).1 hmem⟩
  · rintro ⟨digits, rfl, hmem⟩
    exact ⟨['#'], rfl, digits, (hdigits digits).2 hmem, rfl⟩

/-- A hexadecimal color is taken as far as its digits go. -/
theorem takes_hex : hex.Takes Syntax.hex fun rest => starts isHexDigit rest = false := by
  constructor
  case sound =>
    intro s a rest hread
    unfold hex at hread
    split at hread
    · rename_i tail
      rcases Option.map_eq_some_iff.1 hread with ⟨color, hcolor, heq⟩
      cases heq
      -- Of more than eight digits the others are left as a remainder.
      have hfront : (tail.takeWhile isHexDigit).take 8 <+: tail :=
        (List.take_prefix ..).trans (List.takeWhile_prefix _)
      refine ⟨'#' :: (tail.takeWhile isHexDigit).take 8, mem_hex_iff.2 ⟨_, rfl, ?_, ?_⟩, ?_⟩
      · rw [hcolor, Option.isSome_some]
      · exact fun c hc => List.mem_takeWhile_imp (List.mem_of_mem_take hc)
      · exact congrArg ('#' :: ·) (List.prefix_iff_eq_append.1 hfront).symm
    · cases hread
  case complete =>
    intro word rest hword hrest
    rcases mem_hex_iff.1 hword with ⟨digits, rfl, hsome, hall⟩
    rcases Option.isSome_iff_exists.1 hsome with ⟨color, hcolor⟩
    rcases Text.span_append hall hrest with ⟨htake, -⟩
    have hlength : digits.length ≤ 8 := by
      have := isSome_hexColor?_iff.1 hsome
      omega
    refine ⟨color, ?_⟩
    simp only [hex, List.cons_append, htake, List.take_of_length_le hlength, hcolor]
    simp

theorem opens_hex : Opens Syntax.hex (· = '#') :=
  (Text.opens_singleton rfl).mul

/-- The reader of colors takes the texts of their syntax. -/
theorem takes_color : color.Takes Syntax.color fun rest => starts isHexDigit rest = false := by
  have hfunctions : (Reader.orElse rgb hsl).Takes (Syntax.rgb + Syntax.hsl) fun _ => True := by
    refine takes_rgb.orElse takes_hsl fun word hword rest _ => ?_
    refine takes_rgb.eq_none opens_rgb (opens_hsl.not_starts (fun c hc => ?_) hword rest)
    simp [of_decide_eq_true hc]
  rw [Syntax.color, add_assoc]
  refine takes_hex.orElse (hfunctions.imp fun _ _ => trivial) ?_
  rintro word (hword | hword) rest -
  · exact takes_hex.eq_none opens_hex (opens_rgb.not_starts (apart_eq (by decide)).symm hword rest)
  · exact takes_hex.eq_none opens_hex (opens_hsl.not_starts (apart_eq (by decide)).symm hword rest)

/-! ## Units -/

theorem exists_of_mem_sum {languages : List (Language Char)} (h : word ∈ languages.sum) :
    ∃ L ∈ languages, word ∈ L := by
  induction languages with
  | nil =>
      cases h
  | cons L languages ih =>
      rw [List.sum_cons] at h
      rcases h with h | h
      · exact ⟨L, List.mem_cons_self .., h⟩
      · rcases ih h with ⟨found, hfound, hword⟩
        exact ⟨found, List.mem_cons_of_mem _ hfound, hword⟩

/-- Words none of which begins with another one are taken whichever comes first. -/
theorem takes_oneOf {items : List (String × α)}
    (h : (items.map (·.1.toList)).Pairwise fun a b => ¬ a <+: b ∧ ¬ b <+: a) :
    (oneOf items).Takes (items.map (anyCase ·.1.toList)).sum fun _ => True := by
  induction items with
  | nil =>
      constructor
      case sound =>
        intro s a rest hread
        cases hread
      case complete =>
        intro word rest hword
        cases hword
  | cons item items ih =>
      rcases List.pairwise_cons.1 h with ⟨hfirst, hrest⟩
      have honeOf : oneOf (item :: items) =
          Reader.orElse ((Reader.word item.1.toList).map fun _ => item.2) (oneOf items) := by
        funext s
        rw [oneOf, Reader.orElse, Reader.map]
        cases Reader.word item.1.toList s with
        | none =>
            rfl
        | some result =>
            rfl
      rw [honeOf, List.map_cons, List.sum_cons]
      refine ((Reader.takes_word _).map _).orElse (ih hrest) fun word hword rest _ => ?_
      rcases exists_of_mem_sum hword with ⟨L, hL, hword⟩
      rcases List.mem_map.1 hL with ⟨later, hlater, rfl⟩
      rcases hfirst _ (List.mem_map_of_mem hlater) with ⟨hnotFirst, hnotLater⟩
      have hmap : word.map Char.toLower = later.1.toList := hword
      have hrefused : Reader.word item.1.toList (word ++ rest) = none := by
        refine Reader.word_eq_none fun hfront => ?_
        rw [List.map_append, hmap] at hfront
        -- Two words in front of one text are comparable, whatever comes after them.
        rcases List.prefix_or_prefix_of_prefix hfront (List.prefix_append ..) with hle | hle
        · exact hnotFirst hle
        · exact hnotLater hle
      rw [Reader.map, hrefused]

/-- A number with an optional unit and nothing after it. -/
theorem takes_measure (units : List (String × α))
    (h : (units.map (·.1.toList)).Pairwise fun a b => ¬ a <+: b ∧ ¬ b <+: a)
    (hletters : ∀ unit ∈ units, starts Char.isLower unit.1.toList = true) :
    (number.pair (oneOf units).optional).Takes
      (Syntax.number * (1 + (units.map (anyCase ·.1.toList)).sum)) (· = []) := by
  have hopens : Opens (units.map (anyCase ·.1.toList)).sum isLetter := by
    intro word hword
    rcases exists_of_mem_sum hword with ⟨L, hL, hword⟩
    rcases List.mem_map.1 hL with ⟨unit, hunit, rfl⟩
    exact opens_anyCase_isLetter (hletters unit hunit) word hword
  refine takes_suffixed (takes_oneOf h) hopens apart_isLetter_continuesNumber ?_
  rintro rest rfl
  exact ⟨rfl, rfl⟩

/-- The reader of sizes takes the texts of their syntax, to the end. -/
theorem takes_size : size.Takes Syntax.size (· = []) := by
  have hmeasure := takes_measure [("px", SizeUnit.px), ("rem", .rem), ("em", .em), ("pt", .pt)]
    (by decide) (by decide)
  simp only [List.map_cons, List.map_nil, List.sum_cons, List.sum_nil, add_zero, ← add_assoc]
    at hmeasure
  exact hmeasure.map _

/-- The reader of durations takes the texts of their syntax, to the end. -/
theorem takes_duration : duration.Takes Syntax.duration (· = []) := by
  have hmeasure := takes_measure [("ms", TimeUnit.ms), ("s", .s)] (by decide) (by decide)
  simp only [List.map_cons, List.map_nil, List.sum_cons, List.sum_nil, add_zero, ← add_assoc]
    at hmeasure
  exact hmeasure.map _

end Grammar

/-! ## Whole values -/

/-- A text is a value if it is a word without the white space around it. -/
theorem exists_parseWhole_iff {α : Type} {reader : Reader α} {L : Language Char}
    {follow : List Char → Prop} (h : reader.Takes L follow) (hend : follow []) {text : String} :
    (∃ a, parseWhole reader text = .ok a) ↔ Text.trim text.toList ∈ L := by
  constructor
  · rintro ⟨a, ha⟩
    unfold parseWhole at ha
    split at ha
    · rename_i b hread
      rcases h.sound hread with ⟨word, hword, heq⟩
      rwa [heq, List.append_nil]
    · cases ha
    · cases ha
  · intro hword
    rcases h.complete hword hend with ⟨a, ha⟩
    rw [List.append_nil] at ha
    exact ⟨a, by rw [parseWhole, ha]⟩

/-- The values are the words of their languages, and nothing else is accepted. -/
theorem parse_iff_mem_syntax (text : String) :
    ((∃ color, Color.parse text = .ok color) ↔ Text.trim text.toList ∈ Syntax.color) ∧
      ((∃ size, Size.parse text = .ok size) ↔ Text.trim text.toList ∈ Syntax.size) ∧
      ((∃ duration, Duration.parse text = .ok duration) ↔
        Text.trim text.toList ∈ Syntax.duration) :=
  ⟨exists_parseWhole_iff Grammar.takes_color rfl, exists_parseWhole_iff Grammar.takes_size rfl,
    exists_parseWhole_iff Grammar.takes_duration rfl⟩

end Value
end DesignTokens
