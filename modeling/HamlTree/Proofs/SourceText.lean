import Mathlib.Data.List.Basic
import HamlTree.Proofs.ElementText

/-!
# The text of a node

Every node can be written as one line (`Node.sourceText`): an element by its declaration and its
content, a script by its marker and its code, and so on. The line a node was read from may differ
from it, in the order of the shorthands, in blanks, or by a `div` that was not written.

The nodes that lines stand for are exactly the *readable* ones (`Node.readable_iff`), and the text
of a readable node is read as that node (`Node.Readable.ofText_sourceText`). A block keyword is at
the beginning of this text when it was at the beginning of the line (`Node.find?_sourceText`).
-/

namespace HamlTree

open Text

namespace Line

/-- A tidy text stays tidy after a character that does not end a line, if it is not empty. -/
theorem Tidy.cons {s : List Char} (hs : Tidy s) (hne : s ≠ []) {c : Char}
    (hc : isLineEnd c = false) : Tidy (c :: s) where
  unbroken d hd := by
    rcases List.mem_cons.1 hd with rfl | hd
    · exact hc
    · exact hs.unbroken d hd
  ends := by
    have hlast := hs.ends
    rw [endsBlank] at hlast ⊢
    rwa [List.getLast?_cons_of_ne_nil hne]

/-- A text without line ends and without blanks at either end. -/
structure Trimmed (s : List Char) : Prop extends Tidy s where
  /-- The first character is no blank. -/
  starts : ∀ c ∈ s.head?, isBlank c = false

/-- A tidy text is trimmed once the blanks at its start are gone. -/
theorem Tidy.trimStart {s : List Char} (h : Tidy s) : Trimmed (trimStart s) where
  toTidy := h.of_suffix (trimStart_suffix s)
  starts c hc := by
    rcases hs : Text.trimStart s with - | ⟨d, rest⟩
    · simp [hs] at hc
    · obtain rfl : d = c := by simpa [hs] using hc
      exact isBlank_of_trimStart_eq_cons hs

theorem Trimmed.trimStart_eq {s : List Char} (h : Trimmed s) : Text.trimStart s = s := by
  rcases s with - | ⟨c, s⟩
  · rfl
  · rw [trimStart_cons, h.starts c rfl]
    rfl

/-- One blank before a trimmed text is all that goes. -/
theorem Trimmed.trimStart_cons {s : List Char} (h : Trimmed s) :
    Text.trimStart (' ' :: s) = s := by
  rw [Text.trimStart_cons, if_pos (by decide), h.trimStart_eq]

end Line

open Line

/-! ### Readable nodes -/

/-- A declaration that can be read from a line. -/
inductive Declaration.Readable : Declaration → Prop
  /-- It consists of pieces that the stages of the scanner can find. -/
  | intro {tag : List Char} {classes : List (List Char)} {id braces parens : Option (List Char)}
      (htag : tag ≠ []) (htagChars : ∀ c ∈ tag, Node.isTagChar c = true)
      (hclasses : ∀ name ∈ classes, Node.IsName name) (hid : ∀ name ∈ id, Node.IsName name)
      (hbraces : ∀ s ∈ braces, Node.Balanced .brace s ∧ ∀ c ∈ s, isLineEnd c = false)
      (hparens : ∀ s ∈ parens, Node.Balanced .paren s ∧ ∀ c ∈ s, isLineEnd c = false) :
      Readable ⟨String.ofList tag, String.ofList ([' '].intercalate classes), id.map String.ofList,
        braces.map String.ofList, parens.map String.ofList⟩

namespace Node

/-- The content of an element that can be read from a line. -/
inductive ReadableInline : Option Node → Prop
  /-- There may be no content. -/
  | none : ReadableInline none
  /-- Code is not empty. -/
  | script {code : List Char} (hcode : Trimmed code) (hne : code ≠ []) :
      ReadableInline (some (script .output (String.ofList code) false []))
  /-- Text is not empty either, and it does not begin like code. -/
  | text {text : List Char} (htext : Trimmed text) (hne : text ≠ [])
      (hmark : text.head? ≠ some '=') : ReadableInline (some (leaf .plainText (String.ofList text)))

/-- A node that can be read from a line. -/
inductive Readable : Node → Prop
  /-- An element has a readable declaration and readable content. -/
  | element {d : Declaration} {inline : Option Node} (hd : d.Readable)
      (hinline : ReadableInline inline) : Readable (element d inline [])
  /-- A script has code. -/
  | script (mode : ScriptMode) {code : List Char} (hcode : Trimmed code) (hne : code ≠ []) :
      Readable (script mode (String.ofList code) false [])
  /-- A comment has any text, or none. -/
  | comment {text : List Char} (htext : Trimmed text) :
      Readable (leaf .comment (String.ofList text))
  /-- A doctype is a line that begins with three exclamation marks. -/
  | doctype {text : List Char} (htext : Clean text) (hmarks : "!!!".toList <+: text) :
      Readable (leaf .doctype (String.ofList text))
  /-- Plain text is a line that begins like no other node. -/
  | plainText {text : List Char} (htext : Clean text)
      (hmark : ∀ c ∈ text.head?, c ∉ ['%', '.', '#', '!', '/', '=', '-']) :
      Readable (leaf .plainText (String.ofList text))

/-! ### Lines stand for readable nodes -/

/-- The content of an element line is readable. -/
theorem readable_of_inlineContent {s : List Char} (hs : Tidy s) {inline : Option Node}
    (h : inlineContent s = .ok inline) : ReadableInline inline := by
  rcases inlineContent_eq_ok_iff.1 h with ⟨-, rfl⟩ | ⟨code, hcode, hne, rfl⟩ | ⟨hne, hmark, rfl⟩
  · exact .none
  · have htidy : Tidy code := by
      refine hs.of_suffix (.trans ?_ (trimStart_suffix s))
      rw [hcode]
      exact List.suffix_cons _ _
    exact .script htidy.trimStart hne
  · exact .text hs.trimStart hne hmark

/-- An element line stands for a readable element. -/
theorem readable_of_ofElement {text : List Char} (htext : Tidy text) {n : Node}
    (h : ofElement text = .ok n) : Readable n := by
  obtain ⟨htag, blocks, rest, inline, hblocks, hinline, rfl⟩ := ofElement_eq_ok_iff.1 h
  have hdrop : dropElementMarker text <:+ text := by
    rw [dropElementMarker.eq_def]
    split
    · exact List.suffix_cons _ _
    · exact List.suffix_refl _
  obtain ⟨hchars, hnames⟩ := chars_of_shorthands ((dropElementMarker text).dropWhile isTagChar)
  obtain ⟨hbraces, hparens, hrest⟩ := attributeBlocks_eq_ok hblocks
  have htidy : Tidy (shorthands ((dropElementMarker text).dropWhile isTagChar)).2 :=
    htext.of_suffix (hnames.trans ((List.dropWhile_suffix _).trans hdrop))
  refine .element ?_ (readable_of_inlineContent (htidy.of_suffix hrest) hinline)
  refine .intro htag (fun c hc ↦ List.mem_takeWhile_imp hc) (fun name hname ↦ ?_)
    (fun name hname ↦ ?_) (fun s hs ↦ ?_) fun s hs ↦ ?_
  · obtain ⟨x, hx, hclass⟩ := List.mem_filterMap.1 hname
    exact Shorthand.isName_of_class? (hchars x hx) hclass
  · obtain ⟨x, hx, hid⟩ := List.mem_filterMap.1 (List.mem_of_getLast? hname)
    exact Shorthand.isName_of_id? (hchars x hx) hid
  · exact ⟨(hbraces s hs).1, fun c hc ↦ htidy.unbroken c ((hbraces s hs).2.mem hc)⟩
  · exact ⟨(hparens s hs).1, fun c hc ↦ htidy.unbroken c ((hparens s hs).2.mem hc)⟩

/-- **The node of a line is readable.** -/
theorem readable_of_ofText {text : List Char} (htext : Clean text) {n : Node}
    (h : ofText text = .ok n) : Readable n := by
  rcases ofText_cases h with
    ⟨-, h⟩ | ⟨-, h⟩ | ⟨hmarks, rfl⟩ | ⟨rest, rfl, rfl⟩ | ⟨mode, code, rfl, hscript⟩ | ⟨hmark, rfl⟩
  · exact readable_of_ofElement htext.toTidy h
  · have hdiv : Tidy "%div".toList := by
      show Tidy ['%', 'd', 'i', 'v']
      exact .of_not_blank (List.forall_iff_forall_mem.1 (by decide))
    exact readable_of_ofElement (hdiv.append htext.toTidy) h
  · exact .doctype htext hmarks
  · have hrest := htext.toTidy.of_suffix (List.suffix_cons '/' rest)
    rw [trim, trimEnd_eq_self hrest.trimStart.ends]
    exact .comment hrest.trimStart
  · obtain ⟨hne, rfl⟩ := ofScript_eq_ok_iff.1 hscript
    exact .script mode (htext.toTidy.of_suffix (List.suffix_cons _ _)).trimStart hne
  · exact .plainText htext hmark

/-! ### Writing a node -/

/-- The content of an element line as it is written. -/
def inlineText : Option Node → List Char
  | some (script _ code _ _) => '=' :: ' ' :: code.toList
  | some (leaf _ text) => ' ' :: text.toList
  | _ => []

/-- The line of a node as it is written, without its indentation. -/
def sourceText : Node → List Char
  | element d inline _ => d.label.toList ++ inlineText inline
  | script mode code _ _ => mode.marker :: ' ' :: code.toList
  | leaf .comment text => '/' :: ' ' :: text.toList
  | leaf _ text => text.toList

/-- The children and the flag of a node are not part of its line. -/
@[simp] theorem sourceText_bare (n : Node) : n.bare.sourceText = n.sourceText := by
  cases n with
  | leaf kind text => cases kind <;> rfl
  | element | script => rfl

/-- The label of a declaration that was read from pieces is made of these pieces. -/
theorem toList_label {classes : List (List Char)} (hclasses : ∀ name ∈ classes, IsName name)
    (tag : List Char) (id braces parens : Option (List Char)) :
    (Declaration.label ⟨String.ofList tag, String.ofList ([' '].intercalate classes),
        id.map String.ofList, braces.map String.ofList, parens.map String.ofList⟩).toList =
      '%' :: (tag ++ ((classes.map Shorthand.ofClass ++ id.toList.map Shorthand.ofId).flatMap
        Shorthand.text ++ (blockText .brace braces ++ blockText .paren parens))) := by
  have hwords := words_intercalate fun name hname ↦
    ⟨(hclasses name hname).ne_nil, (hclasses name hname).not_blank⟩
  have hnames : (String.join ((classes.map String.ofList).map ("." ++ ·))).toList =
      (classes.map Shorthand.ofClass).flatMap Shorthand.text := by
    simp [String.toList_join, List.flatMap_map, Shorthand.text]
  have hid : (((id.map String.ofList).map ("#" ++ ·)).getD "").toList =
      (id.toList.map Shorthand.ofId).flatMap Shorthand.text := by
    rcases id with - | name <;> simp [Shorthand.text]
  have hbraces : (((braces.map String.ofList).map ("\x7b" ++ · ++ "\x7d")).getD "").toList =
      blockText .brace braces := by
    rcases braces with - | interior <;> simp [blockText, Delimiter.opening, Delimiter.closing]
  have hparens : (((parens.map String.ofList).map ("(" ++ · ++ ")")).getD "").toList =
      blockText .paren parens := by
    rcases parens with - | interior <;> simp [blockText, Delimiter.opening, Delimiter.closing]
  simp only [Declaration.label, Declaration.classNames, String.toList_append, String.toList_ofList,
    hwords, hnames, hid, hbraces, hparens, List.flatMap_append, List.append_assoc]
  rfl

/-! ### Reading what was written -/

/-- The first character of two texts is that of the first, or else that of the second. -/
theorem forall_head?_append {p : Char → Prop} {s t : List Char} (hs : ∀ c ∈ s.head?, p c)
    (ht : ∀ c ∈ t.head?, p c) : ∀ c ∈ (s ++ t).head?, p c := by
  rcases s with - | ⟨d, s⟩
  · exact ht
  · exact hs

theorem head?_inlineText (inline : Option Node) :
    ∀ c ∈ (inlineText inline).head?, c ∈ [' ', '='] := by
  rcases inline with - | (- | - | -) <;> simp [inlineText]

theorem head?_blockText (d : Delimiter) (block : Option (List Char)) :
    ∀ c ∈ (blockText d block).head?, c ∈ ['{', '('] := by
  rcases block with - | interior
  · simp [blockText]
  · cases d <;> simp [blockText, Delimiter.opening]

theorem head?_text (names : List Shorthand) :
    ∀ c ∈ (names.flatMap Shorthand.text).head?, c ∈ ['.', '#'] := by
  rcases names with - | ⟨x | x, names⟩ <;> simp [Shorthand.text]

/-- A declaration says what its pieces say. -/
theorem declaration_eq {classes : List (List Char)} {id : Option (List Char)}
    (hclasses : ∀ name ∈ classes, IsName name) (hid : ∀ name ∈ id, IsName name) (tag : List Char)
    (blocks : AttributeBlocks) :
    declaration tag (classes.map Shorthand.ofClass ++ id.toList.map Shorthand.ofId) blocks =
      ⟨String.ofList tag, String.ofList ([' '].intercalate classes), id.map String.ofList,
        blocks.braces.map String.ofList, blocks.parens.map String.ofList⟩ := by
  have hclass : ∀ name, IsName name → (Shorthand.ofClass name).class? = some name := by
    rintro (- | ⟨c, name⟩) h
    · exact absurd rfl h.ne_nil
    · rfl
  have hids : (id.toList.map Shorthand.ofId).filterMap Shorthand.class? = [] ∧
      ((id.toList.map Shorthand.ofId).filterMap Shorthand.id?).getLast? = id := by
    rcases id with - | (- | ⟨c, name⟩)
    · exact ⟨rfl, rfl⟩
    · exact absurd rfl (hid [] rfl).ne_nil
    · exact ⟨rfl, rfl⟩
  have hfilter : (classes.map Shorthand.ofClass).filterMap Shorthand.class? = classes ∧
      (classes.map Shorthand.ofClass).filterMap Shorthand.id? = [] := by
    rw [List.filterMap_map, List.filterMap_map]
    refine ⟨?_, List.filterMap_eq_nil_iff.2 fun name _ ↦ rfl⟩
    exact (List.filterMap_congr fun name hname ↦ hclass name (hclasses name hname)).trans
      List.filterMap_some
  rw [declaration, List.filterMap_append, List.filterMap_append, hfilter.1, hfilter.2, hids.1,
    List.append_nil, List.nil_append, hids.2]

/-- The content of an element is read as it is written. -/
theorem inlineContent_inlineText {inline : Option Node} (h : ReadableInline inline) :
    inlineContent (inlineText inline) = .ok inline := by
  rw [inlineContent_eq_ok_iff]
  cases h with
  | none => exact .inl ⟨rfl, rfl⟩
  | @script code hcode hne =>
    refine .inr (.inl ⟨' ' :: code, ?_, ?_, ?_⟩)
    · rw [inlineText, String.toList_ofList, trimStart_cons, if_neg (by decide)]
    · rwa [hcode.trimStart_cons]
    · rw [hcode.trimStart_cons]
  | @text text htext hne hmark =>
    have htrim : trimStart (inlineText (some (leaf .plainText (String.ofList text)))) = text := by
      rw [inlineText, String.toList_ofList, htext.trimStart_cons]
    rw [htrim]
    exact .inr (.inr ⟨hne, hmark, rfl⟩)

/-- The label of a declaration is read as that declaration, and what comes after it as the content
of the element. -/
theorem ofElement_label_append {d : Declaration} (hd : d.Readable) {rest : List Char}
    (hrest : ∀ c ∈ rest.head?, c ∈ [' ', '=']) {inline : Option Node}
    (hinline : inlineContent rest = .ok inline) :
    ofElement (d.label.toList ++ rest) = .ok (element d inline []) := by
  cases hd with
  | @intro tag classes id braces parens htag htagChars hclasses hid hbraces hparens =>
    have hnames : ∀ x ∈ classes.map Shorthand.ofClass ++ id.toList.map Shorthand.ofId,
        ∀ c ∈ x.name, isNameChar c = true := by
      intro x hx
      rcases List.mem_append.1 hx with hx | hx
      · obtain ⟨name, hname, rfl⟩ := List.mem_map.1 hx
        exact (hclasses name hname).chars
      · obtain ⟨name, hname, rfl⟩ := List.mem_map.1 hx
        exact (hid name (Option.mem_toList.1 hname)).chars
    have hdeclaration := declaration_eq hclasses hid tag ⟨braces, parens⟩
    have hlabel := toList_label hclasses tag id braces parens
    generalize classes.map Shorthand.ofClass ++ id.toList.map Shorthand.ofId = names
      at hnames hdeclaration hlabel
    -- what comes after a piece does not begin like the piece
    have hblocksHead : ∀ c ∈ (blockText .brace braces ++
        (blockText .paren parens ++ rest)).head?, c ∈ ['{', '(', ' ', '='] := by
      refine forall_head?_append ?_ (forall_head?_append ?_ ?_)
      · exact fun c hc ↦ List.mem_append_left [' ', '='] (head?_blockText _ _ c hc)
      · exact fun c hc ↦ List.mem_append_left [' ', '='] (head?_blockText _ _ c hc)
      · exact fun c hc ↦ List.mem_append_right ['{', '('] (hrest c hc)
    have hnamesHead : ∀ c ∈ (names.flatMap Shorthand.text ++ (blockText .brace braces ++
        (blockText .paren parens ++ rest))).head?, c ∈ ['.', '#', '{', '(', ' ', '='] := by
      refine forall_head?_append ?_ ?_
      · exact fun c hc ↦ List.mem_append_left ['{', '(', ' ', '='] (head?_text _ c hc)
      · exact fun c hc ↦ List.mem_append_right ['.', '#'] (hblocksHead c hc)
    have htagEnd : ∀ c ∈ ['.', '#', '{', '(', ' ', '='], isTagChar c = false :=
      List.forall_iff_forall_mem.1 (by decide)
    have hnameEnd : ∀ c ∈ ['{', '(', ' ', '='], isNameChar c = false ∧ c ≠ '.' ∧ c ≠ '#' :=
      List.forall_iff_forall_mem.1 (by decide)
    have hblockEnd : ∀ c ∈ [' ', '='], c ≠ '{' ∧ c ≠ '(' :=
      List.forall_iff_forall_mem.1 (by decide)
    obtain ⟨htake, hdrop⟩ := takeWhile_piece htagChars fun c hc ↦ htagEnd c (hnamesHead c hc)
    have hread := shorthands_append hnames fun c hc ↦ hnameEnd c (hblocksHead c hc)
    have hblocks := attributeBlocks_append (fun s hs ↦ (hbraces s hs).1)
      (fun s hs ↦ (hparens s hs).1) fun c hc ↦ hblockEnd c (hrest c hc)
    rw [ofElement_eq_ok_iff, hlabel, List.cons_append, dropElementMarker,
      List.append_assoc, List.append_assoc, List.append_assoc, htake, hdrop, hread]
    exact ⟨htag, _, _, _, hblocks, hinline, by rw [hdeclaration]⟩

/-- An element is read as it is written. -/
theorem ofElement_sourceText {d : Declaration} {inline : Option Node} (hd : d.Readable)
    (hinline : ReadableInline inline) :
    ofElement (element d inline []).sourceText = .ok (element d inline []) :=
  ofElement_label_append hd (head?_inlineText inline) (inlineContent_inlineText hinline)

/-! ### Readable nodes are written on clean lines -/

/-- A block without line ends in its interior is tidy. -/
theorem tidy_blockText {d : Delimiter} {block : Option (List Char)}
    (h : ∀ interior ∈ block, ∀ c ∈ interior, isLineEnd c = false) : Tidy (blockText d block) := by
  rcases block with - | interior
  · exact .nil
  · have hopening : isLineEnd d.opening = false := by cases d <;> decide
    have hclosing : isLineEnd d.closing = false ∧ isBlank d.closing = false := by
      cases d <;> decide
    refine ⟨fun c hc ↦ ?_, ?_⟩
    · simp only [blockText, List.mem_cons, List.mem_append, List.not_mem_nil, or_false] at hc
      rcases hc with rfl | hc | rfl
      · exact hopening
      · exact h interior rfl c hc
      · exact hclosing.1
    · simp [blockText, endsBlank, List.getLast?_cons, hclosing.2]

/-- The label of a readable declaration is tidy. -/
theorem tidy_label {d : Declaration} (hd : d.Readable) : Tidy d.label.toList := by
  cases hd with
  | @intro tag classes id braces parens htag htagChars hclasses hid hbraces hparens =>
    have htagTidy : Tidy ('%' :: tag) := by
      refine .of_not_blank fun c hc ↦ ?_
      rcases List.mem_cons.1 hc with rfl | hc
      · decide
      · exact isBlank_of_isTagChar (htagChars c hc)
    have hnames : Tidy ((classes.map Shorthand.ofClass ++ id.toList.map Shorthand.ofId).flatMap
        Shorthand.text) := by
      refine .of_not_blank fun c hc ↦ ?_
      obtain ⟨x, hx, hc⟩ := List.mem_flatMap.1 hc
      rcases List.mem_append.1 hx with hx | hx
      · obtain ⟨name, hname, rfl⟩ := List.mem_map.1 hx
        rcases List.mem_cons.1 hc with rfl | hc
        · decide
        · exact (hclasses name hname).not_blank c hc
      · obtain ⟨name, hname, rfl⟩ := List.mem_map.1 hx
        rcases List.mem_cons.1 hc with rfl | hc
        · decide
        · exact (hid name (Option.mem_toList.1 hname)).not_blank c hc
    rw [toList_label hclasses, ← List.cons_append]
    exact htagTidy.append (hnames.append
      ((tidy_blockText fun s hs ↦ (hbraces s hs).2).append
        (tidy_blockText fun s hs ↦ (hparens s hs).2)))

/-- The line of a readable node is tidy as it is written, unless it is an empty comment. -/
theorem Readable.tidy_sourceText {n : Node} (h : Readable n) (hn : n ≠ leaf .comment "") :
    Tidy n.sourceText := by
  cases h with
  | @element d inline hd hinline =>
    refine (tidy_label hd).append ?_
    cases hinline with
    | none => exact .nil
    | script hcode hne =>
      rw [inlineText, String.toList_ofList]
      exact (hcode.toTidy.cons hne (by decide)).cons (by simp) (by decide)
    | text htext hne =>
      rw [inlineText, String.toList_ofList]
      exact htext.toTidy.cons hne (by decide)
  | script mode hcode hne =>
    rw [sourceText, String.toList_ofList]
    exact (hcode.toTidy.cons hne (by decide)).cons (by simp) (by cases mode <;> decide)
  | @comment text htext =>
    have hne : text ≠ [] := fun hnil ↦ hn (by rw [hnil])
    rw [sourceText, String.toList_ofList]
    exact (htext.toTidy.cons hne (by decide)).cons (by simp) (by decide)
  | doctype htext =>
    rw [sourceText, String.toList_ofList]
    · exact htext.toTidy
    · simp
  | plainText htext =>
    rw [sourceText, String.toList_ofList]
    · exact htext.toTidy
    · simp

/-- The line of a readable node has no line ends. -/
theorem Readable.unbroken {n : Node} (h : Readable n) :
    ∀ c ∈ n.sourceText, isLineEnd c = false := by
  by_cases hn : n = leaf .comment ""
  · subst hn
    show ∀ c ∈ ['/', ' '], isLineEnd c = false
    exact List.forall_iff_forall_mem.1 (by decide)
  · exact (h.tidy_sourceText hn).unbroken

/-- What is left of a text trimmed at its end begins like the text. -/
theorem head?_trimEnd {s : List Char} (h : trimEnd s ≠ []) : (trimEnd s).head? = s.head? := by
  obtain ⟨rest, hrest⟩ := trimEnd_prefix s
  obtain ⟨c, before, hs⟩ := List.exists_cons_of_ne_nil h
  rw [hs] at hrest ⊢
  rw [← hrest]
  rfl

/-- The line of an element begins with its marker. -/
theorem exists_label_eq (d : Declaration) : ∃ rest, d.label.toList = '%' :: rest := by
  simp only [Declaration.label, String.toList_append, List.append_assoc]
  exact ⟨_, rfl⟩

/-- **The line of a readable node, trimmed at its end, can stand on a line of its own.** -/
theorem Readable.clean {n : Node} (h : Readable n) : Clean (trimEnd n.sourceText) := by
  by_cases hn : n = leaf .comment ""
  · subst hn
    have hslash : trimEnd (leaf .comment "").sourceText = ['/'] := by decide
    rw [hslash]
    exact ⟨.of_not_blank (List.forall_iff_forall_mem.1 (by decide)), by simp, by simp⟩
  · have htidy := h.tidy_sourceText hn
    rw [trimEnd_eq_self htidy.ends]
    have hhead : n.sourceText ≠ [] ∧ n.sourceText.head? ≠ some ' ' := by
      cases h with
      | @element d inline =>
        obtain ⟨rest, hrest⟩ := exists_label_eq d
        simp [sourceText, hrest]
      | script mode => cases mode <;> simp [sourceText, ScriptMode.marker]
      | comment => simp [sourceText]
      | doctype htext => simpa [sourceText] using ⟨htext.ne_nil, htext.unindented⟩
      | plainText htext => simpa [sourceText] using ⟨htext.ne_nil, htext.unindented⟩
    exact ⟨htidy, hhead.1, hhead.2⟩

/-- **A readable node is read as it is written.** -/
theorem Readable.ofText_sourceText {n : Node} (h : Readable n) :
    ofText (trimEnd n.sourceText) = .ok n := by
  by_cases hn : n = leaf .comment ""
  · subst hn
    rfl
  · rw [trimEnd_eq_self (h.tidy_sourceText hn).ends]
    cases h with
    | @element d inline hd hinline =>
      have hread := ofElement_sourceText hd hinline
      obtain ⟨rest, hrest⟩ := exists_label_eq d
      rw [sourceText, hrest, List.cons_append] at hread ⊢
      exact hread
    | @script mode code hcode hne =>
      have hread : ofScript mode (' ' :: code) =
          .ok (Node.script mode (String.ofList code) false []) := by
        rw [ofScript_eq_ok_iff, hcode.trimStart_cons]
        exact ⟨hne, rfl⟩
      rw [sourceText, String.toList_ofList]
      cases mode <;> exact hread
    | @comment text htext =>
      rw [sourceText, String.toList_ofList]
      show Except.ok (leaf .comment (String.ofList (trim (' ' :: text)))) = _
      rw [trim, htext.trimStart_cons, trimEnd_eq_self htext.ends]
    | @doctype text htext hmarks =>
      obtain ⟨rest, rfl⟩ := hmarks
      rw [sourceText, String.toList_ofList]
      · rfl
      · simp
    | @plainText text htext hmark =>
      rw [sourceText, String.toList_ofList]
      · rcases text with - | ⟨c, text⟩
        · rfl
        · have hc := hmark c rfl
          rw [ofText.eq_def]
          split <;> simp_all
      · simp

/-- **The readable nodes are those that lines stand for.** -/
theorem readable_iff {n : Node} : Readable n ↔ ∃ text, Clean text ∧ ofText text = .ok n :=
  ⟨fun h ↦ ⟨_, h.clean, h.ofText_sourceText⟩, fun ⟨_, htext, h⟩ ↦ readable_of_ofText htext h⟩

/-! ### Keywords -/

/-- No line that begins with one of these marks begins with a block keyword. -/
theorem find?_eq_none {c : Char} (hc : c ∈ ['%', '.', '#', '/', '=']) (rest : List Char) :
    Keyword.find? (String.ofList (c :: rest)) = none := by
  have hmark : ∀ c ∈ ['%', '.', '#', '/', '='],
      isWord c = false ∧ isBlank c = false ∧ c ≠ '-' := List.forall_iff_forall_mem.1 (by decide)
  have hwords : ∀ word ∈ Keyword.midWords ++ Keyword.startWords,
      ∃ d, word.toList.head? = some d ∧ d ∉ ['%', '.', '#', '/', '='] := by
    simp [Keyword.midWords, Keyword.startWords]
  obtain ⟨hword, hblank, hhyphen⟩ := hmark c hc
  have hbody : Keyword.body (c :: rest) = c :: rest := by
    rw [Keyword.body.eq_def]
    split
    · next h => exact absurd (List.cons.inj h).1 hhyphen
    · rw [trimStart_cons, hblank]
      rfl
  have hassigned : Keyword.assigned? (c :: rest) = none := by
    rw [Keyword.assigned?]
    simp [hword]
  have hleads : ∀ word ∈ Keyword.midWords ++ Keyword.startWords,
      Keyword.leads (c :: rest) word = false := by
    intro word hmem
    obtain ⟨d, hd, hne⟩ := hwords word hmem
    rw [Keyword.leads]
    rcases hword : word.toList with - | ⟨d', word'⟩
    · simp [hword] at hd
    · obtain rfl : d' = d := by simpa [hword] using hd
      have hdc : d' ≠ c := fun h ↦ hne (h ▸ hc)
      simp [List.isPrefixOf, hdc]
  have hmid : Keyword.midWords.find? (Keyword.leads (c :: rest)) = none :=
    List.find?_eq_none.2 fun word h ↦ by simp [hleads word (List.mem_append_left _ h)]
  have hstart : Keyword.startWords.find? (Keyword.leads (c :: rest)) = none :=
    List.find?_eq_none.2 fun word h ↦ by simp [hleads word (List.mem_append_right _ h)]
  rw [Keyword.find?, String.toList_ofList, hbody, hassigned, hmid, hstart]
  rfl

/-- The hyphen of a silent script and the blanks after it do not count. -/
theorem find?_hyphen {code : List Char} (hcode : Trimmed (trimStart code)) :
    Keyword.find? (String.ofList ('-' :: ' ' :: trimStart code)) =
      Keyword.find? (String.ofList ('-' :: code)) := by
  have hbody : Keyword.body ('-' :: ' ' :: trimStart code) = Keyword.body ('-' :: code) :=
    hcode.trimStart_cons
  rw [Keyword.find?, Keyword.find?, String.toList_ofList, String.toList_ofList, hbody]

/-- **The line of a node begins with a block keyword when the line it was read from does.** -/
theorem find?_sourceText {text : List Char} (htext : Clean text) {n : Node}
    (h : ofText text = .ok n) :
    Keyword.find? (String.ofList (trimEnd n.sourceText)) = Keyword.find? (String.ofList text) := by
  have hreadable := readable_of_ofText htext h
  -- where both lines begin with such a mark, neither has a keyword
  have hmarks : ∀ {c d : Char}, c ∈ ['%', '.', '#', '/', '='] → d ∈ ['%', '.', '#', '/', '='] →
      n.sourceText.head? = some c → text.head? = some d →
      Keyword.find? (String.ofList (trimEnd n.sourceText)) =
        Keyword.find? (String.ofList text) := by
    intro c d hc hd hsource hhead
    rw [← head?_trimEnd hreadable.clean.ne_nil] at hsource
    obtain ⟨rest, hrest⟩ := List.head?_eq_some_iff.1 hsource
    obtain ⟨rest', rfl⟩ := List.head?_eq_some_iff.1 hhead
    rw [hrest, find?_eq_none hc, find?_eq_none hd]
  have helement : ∀ {text}, ofElement text = .ok n → n.sourceText.head? = some '%' := by
    intro text h
    obtain ⟨-, _, _, _, -, -, rfl⟩ := ofElement_eq_ok_iff.1 h
    rw [sourceText]
    obtain ⟨rest, hrest⟩ := exists_label_eq (declaration _ _ _)
    rw [hrest]
    rfl
  rcases ofText_cases h with
    ⟨hhead, h⟩ | ⟨hhead, h⟩ | ⟨-, rfl⟩ | ⟨rest, rfl, rfl⟩ | ⟨mode, code, rfl, hscript⟩ | ⟨-, rfl⟩
  · exact hmarks (by decide) (by decide) (helement h) hhead
  · rcases hhead with hhead | hhead
    · exact hmarks (by decide) (by decide) (helement h) hhead
    · exact hmarks (by decide) (by decide) (helement h) hhead
  · rw [sourceText, String.toList_ofList, trimEnd_eq_self htext.ends]
    simp
  · exact hmarks (by decide) (by decide) rfl rfl
  · obtain ⟨hne, rfl⟩ := ofScript_eq_ok_iff.1 hscript
    cases mode with
    | output => exact hmarks (by decide) (by decide) rfl rfl
    | silent =>
      have hcode := (htext.toTidy.of_suffix (List.suffix_cons '-' code)).trimStart
      rw [trimEnd_eq_self (hreadable.tidy_sourceText (by simp)).ends, sourceText,
        String.toList_ofList]
      exact find?_hyphen hcode
  · rw [sourceText, String.toList_ofList, trimEnd_eq_self htext.ends]
    simp

end Node

end HamlTree
