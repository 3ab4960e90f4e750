import Trapline.Proofs.Fallible
import Trapline.Proofs.IntegerText
import Trapline.Proofs.Pieces
import Trapline.Proofs.Reading

/-!
# Written commands

An argument is written as its sigil followed by a decimal number, a character, a text or a name
(`Argument.Written`). Texts and names may hold anything but a comma and a blank at the end, so a
written argument is a firm text without a comma.

A command is written as its keyword (`Command.IsKeyword`), a colon, and its arguments with commas
between them.

Main statements:
* `Integer.read_toString`: every 64-bit integer is read back from its decimal text.
* `Argument.parseAll_of_written`: written arguments are read back from their list.
* `Command.parse_of_written`: so is a written command, also with commas behind it.
-/

namespace Trapline

namespace Integer

theorem toList_toString
    (n : Int) :
    (toString n).toList
      = if 0 ≤ n then Nat.toDigits 10 n.toNat else '-' :: Nat.toDigits 10 (-n).toNat := by
  rw [Int.toString_eq_repr, Int.repr_eq_if]
  split
  · rw [Nat.toList_repr]
  · rw [String.toList_append, Nat.toList_repr]
    rfl

theorem mem_toString
    {n : Int}
    {c : Char}
    (h : c ∈ (toString n).toList) :
    c = '-' ∨ c.isDigit = true := by
  rw [toList_toString] at h
  split at h
  · exact .inr (Text.isDigit_of_mem_toDigits _ c h)
  · rcases List.mem_cons.1 h with h | h
    · exact .inl h
    · exact .inr (Text.isDigit_of_mem_toDigits _ c h)

theorem isBlank_of_mem_toString
    {n : Int}
    {c : Char}
    (h : c ∈ (toString n).toList) :
    Text.isBlank c = false := by
  rcases mem_toString h with rfl | hdigit
  · decide
  · exact Text.isBlank_of_isDigit hdigit

/-- Digits with a minus in front or without are an integer and nothing else. -/
def Literal.ofDigits
    (negative : Bool)
    (digits : List Char)
    (h : ∀ c ∈ digits, c.isDigit = true) :
    Literal ((if negative then ['-'] else []) ++ digits) where
  sign := if negative then some '-' else none
  run := digits
  rest := []
  text_eq := by cases negative <;> simp
  isSign := by cases negative <;> simp
  no_sign := by
    intro hnone
    cases negative with
    | true =>
        cases hnone
    | false =>
        constructor <;> intro hsign <;> simpa using h _ (List.mem_of_mem_head? hsign)
  isRun := by
    intro front c back hrun
    exact .inl (h c (by simp [hrun]))
  longest := by
    intro run hstarts _
    rw [List.append_nil] at hstarts
    exact hstarts.length_le

theorem Literal.value_ofDigits
    {negative : Bool}
    {digits : List Char}
    (h : ∀ c ∈ digits, c.isDigit = true) :
    (ofDigits negative digits h).value = signed negative (Nat.ofDigitChars 10 digits 0) := by
  have hfilter : digits.filter Char.isDigit = digits := List.filter_eq_self.2 h
  cases negative <;> simp [value, ofDigits, hfilter]

theorem exists_literal_toString
    (n : Int) :
    ∃ l : Literal (toString n).toList, l.value = n := by
  by_cases hn : 0 ≤ n
  · rw [toList_toString, if_pos hn]
    refine ⟨.ofDigits false (Nat.toDigits 10 n.toNat) (Text.isDigit_of_mem_toDigits _), ?_⟩
    rw [Literal.value_ofDigits, Nat.ofDigitChars_ten_toDigits, signed_false]
    omega
  · rw [toList_toString, if_neg hn]
    refine ⟨.ofDigits true (Nat.toDigits 10 (-n).toNat) (Text.isDigit_of_mem_toDigits _), ?_⟩
    rw [Literal.value_ofDigits, Nat.ofDigitChars_ten_toDigits, signed_true]
    omega

theorem read_toString
    (n : Int64) :
    read (toString n).toList = .ok n := by
  have hstart : Text.trimStart (toString n.toInt).toList = (toString n.toInt).toList :=
    Text.trimStart_of_head fun c hc => isBlank_of_mem_toString (List.mem_of_mem_head? hc)
  obtain ⟨l, hvalue⟩ := exists_literal_toString n.toInt
  have hfits : Fits n.toInt := ⟨n.le_toInt, n.toInt_lt⟩
  change read (toString n.toInt).toList = .ok n
  rw [read_of_literal hstart l, hvalue, if_pos hfits, Int64.ofInt_toInt]

end Integer

namespace Argument

/-- What can stand behind a sigil: a text without a comma that does not end in a blank. -/
structure IsPayload (text : List Char) : Prop where
  no_comma : ',' ∉ text
  last : ∀ c ∈ text.getLast?, Text.isBlank c = false

/-- The value is written as the text. -/
inductive Written : Value → String → Prop
  | int (n : Int64) :
      Written (.int n) ("i" ++ toString n)
  | char {c : Char} (hcomma : c ≠ ',') (hblank : Text.isBlank c = false) :
      Written (.char c) (String.ofList ['\x27', c])
  | string {text : String} (h : IsPayload text.toList) :
      Written (.ofChars text.toList) ("\x22" ++ text)
  | name {name : Name} (h : IsPayload name.toList) :
      Written (.ident name) (":" ++ name)

/-- The sigils of written arguments. -/
def writtenSigils : List Char := ['i', '\x27', '\x22', ':']

namespace Written

theorem exists_payload
    {v : Value}
    {token : String}
    (h : Written v token) :
    ∃ sigil ∈ writtenSigils, ∃ payload, IsPayload payload ∧ token.toList = sigil :: payload := by
  cases h with
  | int n =>
      refine ⟨'i', by decide, (toString n).toList, ⟨?_, ?_⟩, by simp⟩
      · intro hcomma
        rcases Integer.mem_toString hcomma with h | h <;> simp at h
      · intro c hc
        exact Integer.isBlank_of_mem_toString (List.mem_of_mem_getLast? hc)
  | @char c hcomma hblank =>
      refine ⟨'\x27', by decide, [c], ⟨?_, ?_⟩, String.toList_ofList⟩
      · simpa using hcomma.symm
      · simpa using hblank
  | @string text htext =>
      exact ⟨'\x22', by decide, text.toList, htext, by simp⟩
  | @name name hname =>
      exact ⟨':', by decide, name.toList, hname, by simp⟩

theorem isToken
    {v : Value}
    {token : String}
    (h : Written v token) :
    IsToken token.toList := by
  obtain ⟨sigil, hsigil, payload, hpayload, htoken⟩ := h.exists_payload
  have hblank : writtenSigils.all (!Text.isBlank ·) = true := by decide
  have hcomma : ',' ∉ writtenSigils := by decide
  rw [htoken]
  refine ⟨List.cons_ne_nil sigil payload, ?_, ?_⟩
  · rw [List.mem_cons, not_or]
    exact ⟨fun h => hcomma (h ▸ hsigil), hpayload.no_comma⟩
  · have hfirst : Text.isBlank sigil = false := by
      simpa using List.all_eq_true.1 hblank sigil hsigil
    exact Text.IsFirm.cons hfirst hpayload.last

theorem parse_eq
    {v : Value}
    {token : String}
    (h : Written v token) :
    parse token.toList = .ok v := by
  cases h with
  | int n =>
      simp [parse, Integer.read_toString, Except.map]
  | char hcomma hblank =>
      simp [parse]
  | string htext =>
      simp [parse]
  | name hname =>
      simp [parse]

end Written

theorem isToken_of_written
    {args : List Value}
    {tokens : List String}
    (h : List.Forall₂ Written args tokens) :
    ∀ t ∈ tokens.map String.toList, IsToken t := by
  intro t ht
  obtain ⟨token, htoken, rfl⟩ := List.mem_map.1 ht
  obtain ⟨v, -, hv⟩ := exists_of_mem_forall₂ h.flip htoken
  exact Written.isToken hv

theorem parseAll_of_written
    {args : List Value}
    {tokens : List String}
    (h : List.Forall₂ Written args tokens)
    (n : Nat) :
    parseAll ([',', ' '].intercalate (tokens.map String.toList) ++ List.replicate n ',')
      = .ok args := by
  have htokens := isToken_of_written h
  have hparse : List.Forall₂ (fun t v => parse t = .ok v) (tokens.map String.toList) args := by
    rw [List.forall₂_map_left_iff]
    exact h.flip.imp fun _ _ hv => Written.parse_eq hv
  calc parseAll ([',', ' '].intercalate (tokens.map String.toList) ++ List.replicate n ',')
      = (spaced (tokens.map String.toList)).mapM (parse ∘ Text.trim) := by
        rw [parseAll, pieces_listed htokens]
        rfl
    _ = (tokens.map String.toList).mapM parse := by rw [← List.mapM_map, map_trim_spaced htokens]
    _ = .ok args := mapM_of_forall₂ hparse

end Argument

namespace Command

/-- A text that is read as the keyword of a command with listed arguments. -/
structure IsKeyword (k : Name) : Prop where
  ne_nil : k.toList ≠ []
  trim_eq : Text.trim k.toList = k.toList
  no_colon : ':' ∉ k.toList
  no_comment : k.toList.head? ≠ some '#'
  ne_label : k ≠ labelName

namespace IsKeyword

theorem keyword_eq
    {k : Name}
    (hk : IsKeyword k)
    (rest : List Char) :
    keyword (k.toList ++ ':' :: rest) = k := by
  rw [keyword_append_colon hk.no_colon, hk.trim_eq, String.ofList_toList]

theorem argumentText_eq
    {k : Name}
    (hk : IsKeyword k)
    (rest : List Char) :
    argumentText (k.toList ++ ':' :: rest) = Text.trim rest :=
  argumentText_append_colon hk.no_colon rest

theorem isIdle_eq
    {k : Name}
    (hk : IsKeyword k)
    (rest : List Char) :
    isIdle (k.toList ++ rest) = false := by
  obtain ⟨c, chars, hchars⟩ := List.exists_cons_of_ne_nil hk.ne_nil
  have hfirm : Text.IsFirm k.toList := hk.trim_eq ▸ Text.isFirm_trim k.toList
  rw [hchars] at hfirm ⊢
  apply isIdle_of_head? (hfirm.head c rfl) _ rfl
  rintro rfl
  exact hk.no_comment (by rw [hchars]; rfl)

end IsKeyword

/-- A written command is read back, whatever number of commas stands behind it. -/
theorem parse_of_written
    {k : Name}
    {args : List Value}
    {tokens : List String}
    (hk : IsKeyword k)
    (hargs : List.Forall₂ Argument.Written args tokens)
    (n : Nat)
    (location : Location) :
    parse (k ++ ": " ++ ", ".intercalate tokens ++ String.ofList (List.replicate n ',')) location
      = .ok { name := k, args, location } := by
  obtain ⟨list, hlist⟩ :
      ∃ list, list = [',', ' '].intercalate (tokens.map String.toList) ++ List.replicate n ',' :=
    ⟨_, rfl⟩
  have hline :
      (k ++ ": " ++ ", ".intercalate tokens ++ String.ofList (List.replicate n ',')).toList
        = k.toList ++ ':' :: ' ' :: list := by
    simp [hlist, String.toList_intercalate]
  -- The blank behind the colon is all that trimming removes from the argument text.
  have htext : argumentText (k.toList ++ ':' :: ' ' :: list) = list := by
    rw [hk.argumentText_eq, Text.trim_cons_of_isBlank (by decide), hlist]
    exact Text.trim_of_isFirm (Argument.isFirm_listed (Argument.isToken_of_written hargs) n)
  have harguments : parseArguments k (k.toList ++ ':' :: ' ' :: list) = .ok args := by
    rw [parseArguments, if_neg hk.ne_label, htext, hlist]
    exact Argument.parseAll_of_written hargs n
  simp [parse, hline, hk.isIdle_eq, hk.keyword_eq, harguments]

/-- Integers at both ends of their range, a quote, a string with a blank, sigils and a colon at its
start, an empty string and an empty name. -/
def mixedArguments : List Value :=
  [.int Int64.minValue, .int Int64.maxValue, .char '\x27', .ofChars " \x22i7: x".toList,
    .ofChars "".toList, .ident ""]

/-- The arguments as they are written. -/
def mixedTokens : List String :=
  ["i-9223372036854775808", "i9223372036854775807", "\x27\x27", "\x22 \x22i7: x", "\x22", ":"]

theorem parse_of_written_of_mixedArguments :
    IsKeyword "set all, now" ∧ List.Forall₂ Argument.Written mixedArguments mixedTokens ∧
      parse
          ("set all, now: i-9223372036854775808, i9223372036854775807, \x27\x27, \x22 \x22i7: x, "
            ++ "\x22, :,,")
          { file := "main", line := 3 }
        = .ok {
            name := "set all, now"
            args := mixedArguments
            location := { file := "main", line := 3 } } := by
  have hk : IsKeyword "set all, now" := by
    constructor <;> decide
  have hargs : List.Forall₂ Argument.Written mixedArguments mixedTokens := by
    have hstring : Argument.IsPayload " \x22i7: x".toList := by
      refine ⟨by decide, ?_⟩
      rintro c ⟨⟩
      decide
    have hempty : Argument.IsPayload "".toList := ⟨by decide, nofun⟩
    exact .cons (.int Int64.minValue) <| .cons (.int Int64.maxValue) <|
      .cons (.char (by decide) (by decide)) <| .cons (.string hstring) <|
      .cons (.string hempty) <| .cons (.name hempty) .nil
  exact ⟨hk, hargs, parse_of_written hk hargs 2 { file := "main", line := 3 }⟩

end Command
end Trapline
