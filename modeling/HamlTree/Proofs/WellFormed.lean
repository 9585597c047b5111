import Mathlib.Data.Option.Basic
import HamlTree.Proofs.Rewriting

/-!
# Parsed templates are well formed

What a reader of a parsed template can rely on, node by node (`Node.WellFormed`): which characters
tags and names have, that the delimiters inside an attribute block pair up, that code and text are
not empty and begin as they should, that no text holds a line end, and that none but the interior of
an attribute block ends with a blank.

The scanner finds the end of an attribute block by counting how deep it is. Counted over a whole
interior, that is the usual condition on delimiters: no beginning of it has more closing ones than
opening ones, and there are as many of both in all (`Node.balanced_iff_paired`).
-/

namespace HamlTree

open Text Line

/-! ### Delimiters that pair up -/

/-- The closing characters of a text pair up with opening ones before them. -/
structure Text.Paired (opening closing : Char) (s : List Char) : Prop where
  /-- No beginning of the text closes more than it opens, -/
  le : ∀ t, t <+: s → t.count closing ≤ t.count opening
  /-- and all that it opens is closed. -/
  eq : s.count opening = s.count closing

/-- A condition on every beginning of a text, one character at a time. -/
theorem forall_prefix_cons {P : List Char → Prop} {c : Char} {s : List Char} :
    (∀ t, t <+: c :: s → P t) ↔ P [] ∧ ∀ t, t <+: s → P (c :: t) := by
  constructor
  · exact fun h ↦ ⟨h [] List.nil_prefix, fun t ht ↦ h _ (List.prefix_cons_inj c |>.2 ht)⟩
  · rintro ⟨hnil, hcons⟩ t ht
    rcases List.prefix_cons_iff.1 ht with rfl | ⟨t, rfl, hprefix⟩
    · exact hnil
    · exact hcons t hprefix

namespace Node

theorem opening_ne_closing (d : Delimiter) : d.opening ≠ d.closing := by cases d <;> decide

/-- **The end of a block by counting.** From inside a block, at some depth below it, a text is all
that is left of the interior when no beginning of it closes more than that depth and what it opens,
and the whole text closes exactly as much. -/
theorem balanced?_eq_some_iff {d : Delimiter} {depth : Nat} {s rest : List Char} :
    balanced? d depth [] (s ++ d.closing :: rest) = some (s, rest) ↔
      (∀ t, t <+: s → t.count d.closing ≤ depth + t.count d.opening) ∧
        depth + s.count d.opening = s.count d.closing := by
  have hne := opening_ne_closing d
  induction s generalizing depth with
  | nil =>
    rw [List.nil_append, balanced?_cons, depthAfter, if_neg hne.symm, if_pos rfl]
    rcases depth with - | depth
    · simp
    · simp
  | cons c s ih =>
    rw [List.cons_append, balanced?_cons, depthAfter, forall_prefix_cons]
    by_cases hopening : c = d.opening
    · subst hopening
      simp [ih, hne, Nat.add_assoc, Nat.add_comm 1]
    · by_cases hclosing : c = d.closing
      · subst hclosing
        rcases depth with - | depth
        · -- this character would end the block
          have hone : ¬ [d.closing].count d.closing ≤ 0 + [d.closing].count d.opening := by
            simp [hne.symm]
          refine iff_of_false (by simp [hne.symm]) fun h ↦ hone (h.1.2 [] List.nil_prefix)
        · simp [hne.symm, ih, Nat.add_right_comm depth 1]
      · simp [hopening, hclosing, ih]

/-- **The interior of a block is balanced when its delimiters pair up.** -/
theorem balanced_iff_paired {d : Delimiter} {s : List Char} :
    Balanced d s ↔ Paired d.opening d.closing s := by
  constructor
  · intro h
    obtain ⟨hle, heq⟩ := balanced?_eq_some_iff.1 (h [])
    exact ⟨fun t ht ↦ by simpa using hle t ht, by simpa using heq⟩
  · intro h rest
    refine balanced?_eq_some_iff.2 ⟨fun t ht ↦ ?_, ?_⟩
    · rw [Nat.zero_add]
      exact h.le t ht
    · rw [Nat.zero_add]
      exact h.eq

end Node

/-! ### Well-formed nodes -/

/-- What can be relied on in a declaration. -/
structure Declaration.WellFormed (d : Declaration) : Prop where
  /-- There is a tag, -/
  tag_ne_empty : d.tag ≠ ""
  /-- of letters, digits, hyphens, colons and underscores. -/
  tag_chars : ∀ c ∈ d.tag.toList, Node.isTagChar c = true
  /-- The classes are names with single spaces between them. -/
  classes : ∃ names : List (List Char), (∀ name ∈ names, Node.IsName name) ∧
    d.classes = String.ofList ([' '].intercalate names)
  /-- The id is a name. -/
  id : ∀ id ∈ d.id, Node.IsName id.toList
  /-- The braces inside the block in braces pair up, and the block is on one line. -/
  braces : ∀ s ∈ d.braceAttributes, Paired '{' '}' s.toList ∧ ∀ c ∈ s.toList, isLineEnd c = false
  /-- So do the parentheses inside the block in parentheses. -/
  parens : ∀ s ∈ d.parenAttributes, Paired '(' ')' s.toList ∧ ∀ c ∈ s.toList, isLineEnd c = false

namespace Node

/-- What can be relied on in the content of an element: there is none, or it is code or text, which
is not empty and has no blank at either end. -/
def WellFormedInline : Option Node → Prop
  | none => True
  | some (script mode code midBlock children) =>
    mode = .output ∧ code ≠ "" ∧ Trimmed code.toList ∧ midBlock = false ∧ children = []
  | some (leaf kind text) =>
    kind = .plainText ∧ text ≠ "" ∧ Trimmed text.toList ∧ text.toList.head? ≠ some '='
  | some (element _ _ _) => False

/-- What can be relied on in a node, whatever its children and its flag. Outside of attribute blocks
no text has a line end in it or a blank at its end. -/
def WellFormed : Node → Prop
  | element d inline _ => d.WellFormed ∧ WellFormedInline inline
  | script _ code _ _ => code ≠ "" ∧ Trimmed code.toList
  | leaf .doctype text => "!!!".toList <+: text.toList ∧ Tidy text.toList
  | leaf .comment text => Trimmed text.toList
  | leaf .plainText text => text ≠ "" ∧ Tidy text.toList ∧
    ∀ c ∈ text.toList.head?, c ∉ [' ', '%', '.', '#', '!', '/', '=', '-']

end Node

/-! ### The texts of a node -/

/-- The texts of a declaration, but for the interiors of its attribute blocks. -/
def Declaration.texts (d : Declaration) : List String := d.tag :: d.classes :: d.id.toList

/-- The interiors of the attribute blocks of a declaration. -/
def Declaration.interiors (d : Declaration) : List String :=
  d.braceAttributes.toList ++ d.parenAttributes.toList

namespace Node

/-- The texts of a node alone: neither those of its inline node nor those of its children. -/
def ownTexts : Node → List String
  | element d _ _ => d.texts
  | script _ code _ _ => [code]
  | leaf _ text => [text]

/-- The texts of a node and its inline node. -/
def texts : Node → List String
  | element d inline _ => d.texts ++ inline.toList.flatMap ownTexts
  | n => n.ownTexts

/-- The interiors of the attribute blocks of a node. -/
def interiors : Node → List String
  | element d _ _ => d.interiors
  | _ => []

end Node

/-- Names with spaces between them are tidy. -/
theorem tidy_intercalate {names : List (List Char)} (h : ∀ name ∈ names, Node.IsName name) :
    Tidy ([' '].intercalate names) := by
  induction names with
  | nil => exact .nil
  | cons name names ih =>
    have hname := Tidy.of_not_blank (h name List.mem_cons_self).not_blank
    have hnames := ih fun x hx ↦ h x (List.mem_cons_of_mem name hx)
    rcases names with - | ⟨other, names⟩
    · rwa [List.intercalate_singleton]
    · rw [List.intercalate_cons_cons, List.append_assoc, List.singleton_append]
      refine hname.append (hnames.cons ?_ (by decide))
      have hother := (h other (by simp)).ne_nil
      rcases names with - | ⟨_, names⟩
      · rwa [List.intercalate_singleton]
      · simp [List.intercalate_cons_cons, hother]

/-- No text of a well-formed declaration has a line end in it or a blank at its end. -/
theorem Declaration.WellFormed.tidy_texts {d : Declaration} (h : d.WellFormed) :
    ∀ s ∈ d.texts, Tidy s.toList := by
  intro s hs
  rcases List.mem_cons.1 hs with rfl | hs
  · exact .of_not_blank fun c hc ↦ Node.isBlank_of_isTagChar (h.tag_chars c hc)
  · rcases List.mem_cons.1 hs with rfl | hs
    · obtain ⟨names, hnames, hclasses⟩ := h.classes
      rw [hclasses, String.toList_ofList]
      exact tidy_intercalate hnames
    · exact .of_not_blank (h.id s (Option.mem_toList.1 hs)).not_blank

namespace Node.WellFormed

variable {n : Node}

/-- **No text of a well-formed node has a line end in it or a blank at its end**, except that the
interior of an attribute block may end with blanks, -/
theorem tidy_texts (h : n.WellFormed) : ∀ s ∈ n.texts, Tidy s.toList := by
  intro s hs
  match n with
  | element d inline _ =>
    obtain ⟨hd, hinline⟩ := h
    rcases List.mem_append.1 hs with hs | hs
    · exact hd.tidy_texts s hs
    · obtain ⟨content, hcontent, hs⟩ := List.mem_flatMap.1 hs
      obtain rfl := Option.mem_toList.1 hcontent
      match content with
      | script _ code _ _ =>
        obtain rfl := List.mem_singleton.1 hs
        exact hinline.2.2.1.toTidy
      | leaf _ text =>
        obtain rfl := List.mem_singleton.1 hs
        exact hinline.2.2.1.toTidy
  | script _ code _ _ =>
    obtain rfl := List.mem_singleton.1 hs
    exact h.2.toTidy
  | leaf .doctype text =>
    obtain rfl := List.mem_singleton.1 hs
    exact h.2
  | leaf .comment text =>
    obtain rfl := List.mem_singleton.1 hs
    exact h.toTidy
  | leaf .plainText text =>
    obtain rfl := List.mem_singleton.1 hs
    exact h.2.1

/-- which has no line end in it either. -/
theorem unbroken_interiors (h : n.WellFormed) :
    ∀ s ∈ n.interiors, ∀ c ∈ s.toList, isLineEnd c = false := by
  intro s hs
  match n with
  | element d _ _ =>
    rcases List.mem_append.1 hs with hs | hs
    · exact (h.1.braces s (Option.mem_toList.1 hs)).2
    · exact (h.1.parens s (Option.mem_toList.1 hs)).2
  | script _ _ _ _ | leaf _ _ => exact absurd hs List.not_mem_nil

end Node.WellFormed

/-! ### Readable nodes are well formed -/

/-- A declaration that can be read from a line is well formed. -/
theorem Declaration.Readable.wellFormed {d : Declaration} (h : d.Readable) : d.WellFormed := by
  -- the interior of a block, of either kind
  have hblock : ∀ {k : Delimiter} {block : Option (List Char)},
      (∀ s ∈ block, Node.Balanced k s ∧ ∀ c ∈ s, isLineEnd c = false) →
      ∀ s ∈ block.map String.ofList,
        Paired k.opening k.closing s.toList ∧ ∀ c ∈ s.toList, isLineEnd c = false := by
    intro k block h s hs
    obtain ⟨interior, hinterior, rfl⟩ := Option.mem_map.1 hs
    obtain ⟨hbalanced, hunbroken⟩ := h interior hinterior
    rw [String.toList_ofList]
    exact ⟨Node.balanced_iff_paired.1 hbalanced, hunbroken⟩
  cases h with
  | @intro tag classes id braces parens htag htagChars hclasses hid hbraces hparens =>
    refine ⟨?_, ?_, ⟨classes, hclasses, rfl⟩, ?_, hblock hbraces, hblock hparens⟩
    · show String.ofList tag ≠ ""
      exact fun h ↦ htag (by simpa using congrArg String.toList h)
    · show ∀ c ∈ (String.ofList tag).toList, Node.isTagChar c = true
      rwa [String.toList_ofList]
    · intro x hx
      obtain ⟨name, hname, rfl⟩ := Option.mem_map.1 hx
      rw [String.toList_ofList]
      exact hid name hname

namespace Node

theorem ofList_ne_empty {s : List Char} (h : s ≠ []) : String.ofList s ≠ "" :=
  fun hnil ↦ h (by simpa using congrArg String.toList hnil)

/-- So is the content of an element. -/
theorem ReadableInline.wellFormed {inline : Option Node} (h : ReadableInline inline) :
    WellFormedInline inline := by
  rcases h with - | ⟨hcode, hne⟩ | ⟨htext, hne, hmark⟩
  · trivial
  · exact ⟨rfl, ofList_ne_empty hne, by rwa [String.toList_ofList], rfl, rfl⟩
  · exact ⟨rfl, ofList_ne_empty hne, by rwa [String.toList_ofList], by rwa [String.toList_ofList]⟩

/-- **Every node that can be read from a line is well formed.** -/
theorem Readable.wellFormed {n : Node} (h : Readable n) : n.WellFormed := by
  cases h with
  | element hd hinline => exact ⟨hd.wellFormed, hinline.wellFormed⟩
  | script mode hcode hne => exact ⟨ofList_ne_empty hne, by rwa [String.toList_ofList]⟩
  | @comment text htext =>
    show Trimmed (String.ofList text).toList
    rwa [String.toList_ofList]
  | @doctype text htext hmarks =>
    show "!!!".toList <+: (String.ofList text).toList ∧ Tidy (String.ofList text).toList
    rw [String.toList_ofList (l := text)]
    exact ⟨hmarks, htext.toTidy⟩
  | @plainText text htext hmark =>
    refine ⟨ofList_ne_empty htext.ne_nil, ?_, ?_⟩
    · rw [String.toList_ofList]
      exact htext.toTidy
    · rw [String.toList_ofList]
      intro c hc
      have hspace : c ≠ ' ' := fun h ↦ htext.unindented (h ▸ hc)
      exact List.not_mem_cons_of_ne_of_not_mem hspace (hmark c hc)

@[simp] theorem wellFormed_bare {n : Node} : n.bare.WellFormed ↔ n.WellFormed := by
  cases n <;> rfl

end Node

/-- **Every parsed template is well formed**, in each of its nodes: no text has a line end in it,
and none but the interior of an attribute block ends with a blank. -/
theorem wellFormed_of_parse {source : String} {t : Template} (h : parse source = .ok t) :
    ∀ n ∈ t.inOrder, n.WellFormed ∧ (∀ s ∈ n.texts, Tidy s.toList) ∧
      ∀ s ∈ n.interiors, ∀ c ∈ s.toList, isLineEnd c = false := by
  intro n hn
  have hclean : ∀ l ∈ logicalLines source, Clean l.text.toList :=
    fun l hl ↦ clean_of_mem_logicalLines hl
  have hbare := (parse_eq_ok_iff.1 h).readable hclean n hn
  have hn := Node.wellFormed_bare.1 hbare.wellFormed
  exact ⟨hn, hn.tidy_texts, hn.unbroken_interiors⟩

/-- The braces of a block pair up and its blanks stay, and a comment is trimmed at both ends. -/
theorem wellFormed_of_parse_attributes :
    (Node.element ⟨"p", "a b", none, some " x: {} ", none⟩ (some (.leaf .plainText "c  d"))
        [.leaf .comment "e"]).WellFormed ∧ (Node.leaf .comment "e").WellFormed := by
  have h : parse "%p.a.b{ x: {} }  c  d\n  /  e " = .ok ⟨[.element
      ⟨"p", "a b", none, some " x: {} ", none⟩ (some (.leaf .plainText "c  d"))
      [.leaf .comment "e"]]⟩ := by decide +kernel
  have hall := wellFormed_of_parse h
  refine ⟨(hall _ ?_).1, (hall _ ?_).1⟩
  · simp [Template.inOrder, documentOrder_cons]
  · simp [Template.inOrder, documentOrder_cons, Node.children]

end HamlTree
