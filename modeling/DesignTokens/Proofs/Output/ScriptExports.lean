import DesignTokens.Proofs.Output.BlockComments
import DesignTokens.Proofs.Output.LegalNames
import DesignTokens.Proofs.Output.ScriptTypes
import DesignTokens.Proofs.Reader

/-!
# What scripts export

A reader of scripts that passes over block comments finds the exported constants, each with what
follows its name on the line. In a module it finds the values of tokens and in the declarations
their types, under the same names and in the same order, whatever names, values and descriptions
there are.
-/

namespace DesignTokens
namespace Output

/-! ## Finding exported constants -/

/-- The text behind the words that announce an exported constant. -/
def afterWords (s : List Char) : Option (List Char) :=
  (Text.dropPrefix? "export ".toList s).bind fun rest =>
    Text.dropPrefix? "const ".toList ((Text.dropPrefix? "declare ".toList rest).getD rest)

/-- What follows a word that was dropped is shorter by the word. -/
theorem length_of_dropPrefix? {start s rest : List Char}
    (h : Text.dropPrefix? start s = some rest) : s.length = start.length + rest.length := by
  rw [Text.dropPrefix?_eq_some_iff.1 h, List.length_append]

/-- What follows a terminator is shorter than the text that it was found in. -/
theorem length_of_throughTerminator {s inside rest : List Char}
    (h : throughTerminator s = some (inside, rest)) : rest.length < s.length := by
  induction s generalizing inside with
  | nil =>
      cases h
  | cons c s ih =>
      rw [throughTerminator] at h
      cases hfound : Text.dropPrefix? terminator (c :: s) with
      | some after =>
          rw [hfound] at h
          cases h
          -- The terminator itself is dropped at the end.
          rw [length_of_dropPrefix? hfound]
          exact Nat.lt_add_of_pos_left (by decide)
      | none =>
          rw [hfound] at h
          rcases Option.map_eq_some_iff.1 h with ⟨⟨inner, after⟩, hinner, heq⟩
          cases heq
          exact Nat.lt_succ_of_lt (ih hinner)

/-- What follows a comment is shorter than the text that begins with it. -/
theorem length_of_blockComment {s comment rest : List Char}
    (h : blockComment s = some (comment, rest)) : rest.length < s.length := by
  unfold blockComment at h
  split at h
  · rename_i inside hopening
    rcases Option.map_eq_some_iff.1 h with ⟨⟨inner, after⟩, hinner, heq⟩
    cases heq
    have hlength := length_of_throughTerminator hinner
    rw [length_of_dropPrefix? hopening]
    omega
  · cases h

theorem length_of_afterWords {s rest : List Char} (h : afterWords s = some rest) :
    rest.length < s.length := by
  unfold afterWords at h
  rcases Option.bind_eq_some_iff.1 h with ⟨first, hexport, hconst⟩
  have hwhole := length_of_dropPrefix? hexport
  have hback := length_of_dropPrefix? hconst
  have hexportLength : "export ".toList.length = 7 := by decide
  cases hdeclare : Text.dropPrefix? "declare ".toList first with
  | none =>
      rw [hdeclare, Option.getD_none] at hback
      omega
  | some more =>
      have hmore := length_of_dropPrefix? hdeclare
      rw [hdeclare, Option.getD_some] at hback
      omega

/-- The exported constants of a script: the name of each of them and what follows it on its line. -/
def exportsIn (s : List Char) : List (String × String) :=
  match _hcomment : blockComment s with
  | some (_, rest) => exportsIn rest
  | none =>
      match _hwords : afterWords s with
      | some rest =>
          (String.ofList (rest.takeWhile continuesIdentifier),
            String.ofList ((rest.dropWhile continuesIdentifier).takeWhile (· ≠ '\n'))) ::
              exportsIn (rest.dropWhile (· ≠ '\n'))
      | none =>
          match s with
          | [] => []
          | _ :: rest => exportsIn rest
termination_by s.length
decreasing_by
  · exact length_of_blockComment _hcomment
  · exact Nat.lt_of_le_of_lt (List.dropWhile_suffix _).length_le (length_of_afterWords _hwords)
  · simp

variable {s rest name line : List Char} {c : Char}

/-- A comment announces no exports. -/
theorem exportsIn_comment {comment : List Char} (h : blockComment s = some (comment, rest)) :
    exportsIn s = exportsIn rest := by
  rw [exportsIn]
  split
  · rename_i hfound
    rw [h] at hfound
    cases hfound
    rfl
  · rename_i hfound
    rw [h] at hfound
    cases hfound

/-- A character that opens neither a comment nor a declaration is skipped. -/
theorem exportsIn_skip (hcomment : blockComment (c :: rest) = none)
    (hwords : afterWords (c :: rest) = none) : exportsIn (c :: rest) = exportsIn rest := by
  rw [exportsIn]
  split
  · simp_all
  · split
    · simp_all
    · rfl

/-- A constant is found with what follows its name on the line. -/
theorem exportsIn_constant {back : List Char} (hcomment : blockComment s = none)
    (hwords : afterWords s = some (name ++ c :: back ++ '\n' :: rest))
    (hname : ∀ d ∈ name, continuesIdentifier d = true) (hc : continuesIdentifier c = false)
    (hline : ∀ d ∈ c :: back, d ≠ '\n') :
    exportsIn s = (String.ofList name, String.ofList (c :: back)) :: exportsIn ('\n' :: rest) := by
  have hback : ∀ d ∈ c :: back, decide (d ≠ '\n') = true := fun d hd => decide_eq_true (hline d hd)
  have hwhole : ∀ d ∈ name ++ c :: back, decide (d ≠ '\n') = true := by
    intro d hd
    rcases List.mem_append.1 hd with hfront | hlater
    · refine decide_eq_true fun heq => ?_
      exact absurd (heq ▸ hname d hfront) (by decide)
    · exact hback d hlater
  -- The name, the text up to the end of the line, and the line are read one after the other.
  have hnameSpan :
      (name ++ (c :: back ++ '\n' :: rest)).takeWhile continuesIdentifier = name ∧
        (name ++ (c :: back ++ '\n' :: rest)).dropWhile continuesIdentifier =
          c :: back ++ '\n' :: rest := Text.span_append hname hc
  have hbackSpan : (c :: back ++ '\n' :: rest).takeWhile (· ≠ '\n') = c :: back ∧
      (c :: back ++ '\n' :: rest).dropWhile (· ≠ '\n') = '\n' :: rest :=
    Text.span_append hback rfl
  have hwholeSpan : (name ++ c :: back ++ '\n' :: rest).takeWhile (· ≠ '\n') = name ++ c :: back ∧
      (name ++ c :: back ++ '\n' :: rest).dropWhile (· ≠ '\n') = '\n' :: rest :=
    Text.span_append hwhole rfl
  rw [← List.append_assoc] at hnameSpan
  rw [exportsIn]
  split
  · simp_all
  · split
    · rename_i hfound
      rw [hwords] at hfound
      cases hfound
      rw [hnameSpan.1, hnameSpan.2, hbackSpan.1, hwholeSpan.2]
    · simp_all

theorem exportsIn_nil : exportsIn [] = [] := by
  rw [exportsIn]
  split
  · rename_i hfound
    cases hfound
  · split
    · rename_i hfound
      cases hfound
    · rfl

theorem exportsIn_newline (rest : List Char) : exportsIn ('\n' :: rest) = exportsIn rest :=
  exportsIn_skip rfl rfl

/-- A comment that is open is read up to its terminator. -/
theorem blockComment_opening (s : List Char) :
    blockComment ('/' :: '*' :: s) =
      (throughTerminator s).map fun (inside, after) => ('/' :: '*' :: inside, after) :=
  rfl

/-! ## Files -/

def headerInside : List Char :=
  "*\n * Do not edit directly\n * Generated by strata\n ".toList

/-- The comment in front of a file is passed over. -/
theorem exportsIn_blockHeader (rest : List Char) :
    exportsIn (blockHeader.toList ++ rest) = exportsIn rest := by
  have hheader : blockHeader.toList =
      '/' :: '*' :: (headerInside ++ ['*', '/', '\n', '\n']) := by
    decide +kernel
  have hinside : Unterminated (headerInside ++ ['*']) := by
    unfold Unterminated
    decide +kernel
  have hscan := throughTerminator_append hinside ('\n' :: '\n' :: rest)
  have hcomment : blockComment (blockHeader.toList ++ rest) =
      some ('/' :: '*' :: (headerInside ++ terminator), '\n' :: '\n' :: rest) := by
    rw [hheader, List.cons_append, List.cons_append, List.append_assoc, blockComment_opening]
    exact congrArg (Option.map _) hscan
  rw [exportsIn_comment hcomment, exportsIn_newline, exportsIn_newline]

/-- The comment in front of a token is passed over. -/
theorem exportsIn_docComment (token : TransformedToken) (rest : List Char) :
    exportsIn ((docComment token).toList ++ rest) = exportsIn rest := by
  cases hdescription : description? token with
  | none =>
      rw [docComment, hdescription]
      rfl
  | some text =>
      have hholds : HoldsComment
          ("" ++ ("/** " ++ commentText text ++ " */") ++ ("\n" ++ String.ofList rest)) ""
          ("/** " ++ commentText text ++ " */") ("\n" ++ String.ofList rest) :=
        holdsComment_of_unterminated (Or.inr rfl) (unterminated_commentText text) rfl
      have hscanned := hholds.scanned
      rw [← String.append_assoc, ← docComment_of_description? hdescription, String.toList_append,
        String.toList_ofList] at hscanned
      rw [exportsIn_comment hscanned, String.toList_append, String.toList_ofList,
        String.toList_ofList]
      exact exportsIn_newline rest

variable {words back : String} {token : TransformedToken} {start : Option String}
  {tokens : List TransformedToken}

/-- The characters of an exported name all continue an identifier. -/
theorem continuesIdentifier_of_mem_exportName (hc : c ∈ (exportName start token).toList) :
    continuesIdentifier c = true := by
  rw [continuesIdentifier, Bool.or_assoc]
  exact (isScriptName_iff.1 (isScriptName_identifier _)).2.1 c hc

/-- With these words a constant is announced, whatever its name is. -/
def Announces (words : String) : Prop :=
  ∀ rest, blockComment (words.toList ++ rest) = none ∧ afterWords (words.toList ++ rest) = some rest

theorem dropPrefix?_append (start rest : List Char) :
    Text.dropPrefix? start (start ++ rest) = some rest :=
  Text.dropPrefix?_eq_some_iff.2 rfl

theorem announces_export : Announces "export const " := by
  have hwords : "export const ".toList = "export ".toList ++ "const ".toList := by simp
  have hstart : "export ".toList = 'e' :: "xport ".toList := by simp
  intro rest
  have hdeclare : Text.dropPrefix? "declare ".toList ("const ".toList ++ rest) = none := by
    rw [Text.dropPrefix?_eq_none_iff]
    simp [List.isPrefixOf]
  rw [hwords, List.append_assoc]
  refine ⟨by rw [hstart]; rfl, ?_⟩
  unfold afterWords
  rw [dropPrefix?_append, Option.bind_some, hdeclare, Option.getD_none, dropPrefix?_append]

theorem announces_declare : Announces "export declare const " := by
  have hwords : "export declare const ".toList =
      "export ".toList ++ ("declare ".toList ++ "const ".toList) := by simp
  have hstart : "export ".toList = 'e' :: "xport ".toList := by simp
  intro rest
  rw [hwords, List.append_assoc, List.append_assoc]
  refine ⟨by rw [hstart]; rfl, ?_⟩
  unfold afterWords
  rw [dropPrefix?_append, Option.bind_some, dropPrefix?_append, Option.getD_some,
    dropPrefix?_append]

structure Continues (back : TransformedToken → String) : Prop where
  stops : ∀ token, ∃ c rest, (back token).toList = c :: rest ∧ continuesIdentifier c = false
  onLine : ∀ token, ∀ c ∈ (back token).toList, c ≠ '\n'

theorem ne_newline_of_noControls {s : List Char} (h : Json.NoControls s) : ∀ c ∈ s, c ≠ '\n' := by
  rintro c hc rfl
  exact absurd (h '\n' hc) (by decide)

theorem continues_value : Continues fun token => " = " ++ token.value.compact ++ ";" where
  stops token := ⟨' ', _, by simp; rfl, by decide⟩
  onLine token := by
    refine ne_newline_of_noControls ?_
    simp [Json.noControls_compact]

theorem continues_type : Continues fun token => ": " ++ typeText token.value ++ ";" where
  stops token := ⟨':', _, by simp; rfl, by decide⟩
  onLine token := by
    refine ne_newline_of_noControls ?_
    have htype : Json.NoControls (typeText token.value).toList := by
      rw [typeText, String.toList_ofList, ← ScriptType.chars_declared]
      exact ScriptType.noControls_chars _
    simp [htype]

/-- Of each token one constant is found, and the entries after it. -/
theorem exportsIn_entries {words : String} (hwords : Announces words)
    {back : TransformedToken → String} (hback : Continues back) (start : Option String)
    (tokens : List TransformedToken) :
    exportsIn (String.join (tokens.map fun token =>
        docComment token ++ (words ++ exportName start token ++ back token ++ "\n"))).toList =
      tokens.map fun token => (exportName start token, back token) := by
  induction tokens with
  | nil =>
      exact exportsIn_nil
  | cons token rest ih =>
      rcases hback.stops token with ⟨c, more, hstart, hstop⟩
      have hline : ∀ d ∈ c :: more, d ≠ '\n' := hstart ▸ hback.onLine token
      -- One declaration announces one export, and ends with its line.
      have hentry : ∀ later : List Char,
          exportsIn ((words ++ exportName start token ++ back token ++ "\n").toList ++ later) =
            (exportName start token, back token) :: exportsIn later := by
        intro later
        have hwhole : (words ++ exportName start token ++ back token ++ "\n").toList ++ later =
            words.toList ++ ((exportName start token).toList ++ c :: more ++ '\n' :: later) := by
          simp [hstart]
        rw [hwhole, exportsIn_constant (hwords _).1 (hwords _).2
          (fun d => continuesIdentifier_of_mem_exportName) hstop hline, exportsIn_newline, ← hstart,
          String.ofList_toList, String.ofList_toList]
      rw [List.map_cons, String.join_cons, String.toList_append, String.toList_append,
        List.append_assoc, exportsIn_docComment, hentry, ih, List.map_cons]

/-- The exported constants of a module. -/
theorem exportsIn_jsModule (tokens : List TransformedToken) (start : Option String) :
    exportsIn (jsModule tokens start).toList =
      tokens.map fun token => (exportName start token, " = " ++ token.value.compact ++ ";") := by
  have hlines : exportLine start = fun token => docComment token ++
      ("export const " ++ exportName start token ++ (" = " ++ token.value.compact ++ ";") ++
        "\n") := by
    funext token
    simp [exportLine, ← String.toList_inj]
  rw [jsModule, String.toList_append, exportsIn_blockHeader, hlines,
    exportsIn_entries announces_export continues_value]

/-- The declared constants. -/
theorem exportsIn_tsDeclarations (tokens : List TransformedToken) (start : Option String) :
    exportsIn (tsDeclarations tokens start).toList =
      tokens.map fun token => (exportName start token, ": " ++ typeText token.value ++ ";") := by
  have hlines : declarationLine start = fun token => docComment token ++
      ("export declare const " ++ exportName start token ++ (": " ++ typeText token.value ++ ";") ++
        "\n") := by
    funext token
    simp [declarationLine, ← String.toList_inj]
  rw [tsDeclarations, String.toList_append, exportsIn_blockHeader, hlines,
    exportsIn_entries announces_declare continues_type]

/-- The declarations of a module have the names that the module exports, in its order, and the type
of the value that it exports under each of them. What is written for a value is the text of one type
only, and the value is of this type. Values for which the same is written are of one type, and an
array is declared as one of a type exactly if it has items and the type is written for all of
them. -/
theorem tsDeclarations_describe (tokens : List TransformedToken) (start : Option String) :
    (exportsIn (tsDeclarations tokens start).toList).map Prod.fst =
        (exportsIn (jsModule tokens start).toList).map Prod.fst ∧
      exportsIn (jsModule tokens start).toList =
        tokens.map (fun token => (exportName start token, " = " ++ token.value.compact ++ ";")) ∧
      exportsIn (tsDeclarations tokens start).toList =
        tokens.map (fun token => (exportName start token, ": " ++ typeText token.value ++ ";")) ∧
      (∀ value : Json, ∃ type : ScriptType, type.Admits value ∧
        ∀ other : ScriptType, other.text = typeText value ↔ other = type) ∧
      (∀ a b : Json, typeText a = typeText b →
        ∃ type : ScriptType, type.text = typeText a ∧ type.Admits a ∧ type.Admits b) ∧
      ∀ (items : List Json) (type : ScriptType),
        (ScriptType.array type).text = typeText (.array items) ↔
          items ≠ [] ∧ ∀ item ∈ items, type.text = typeText item ∧ type.Admits item := by
  refine ⟨?_, exportsIn_jsModule tokens start, exportsIn_tsDeclarations tokens start, ?_, ?_, ?_⟩
  · rw [exportsIn_tsDeclarations, exportsIn_jsModule, List.map_map, List.map_map]
    rfl
  · exact fun value =>
      ⟨.declared value, ScriptType.admits_declared value, fun _ => ScriptType.text_eq_typeText_iff⟩
  · intro a b hsame
    have hread : (ScriptType.declared a).text = typeText a :=
      ScriptType.text_eq_typeText_iff.2 rfl
    have hother := ScriptType.text_eq_typeText_iff.1 (hread.trans hsame)
    exact ⟨.declared a, hread, ScriptType.admits_declared a,
      hother ▸ ScriptType.admits_declared b⟩
  · intro items type
    rw [ScriptType.text_eq_typeText_iff, eq_comm, ScriptType.declared_array_iff]
    refine and_congr_right fun _ => forall₂_congr fun item _ => ?_
    rw [ScriptType.text_eq_typeText_iff]
    constructor
    · rintro rfl
      exact ⟨rfl, ScriptType.admits_declared item⟩
    · exact fun hboth => hboth.1.symm

end Output
end DesignTokens
