import HamlTree.Proofs.QuotedText
import HamlTree.Proofs.SourceText

/-!
# Labels determine nodes

A label runs the parts of a node together without a separator of its own, and on arbitrary nodes it
is ambiguous. Not so for nodes that lines stand for: the first character of a label tells the kind
(`Node.head?_label`), the label of a declaration ends where the element scanner says, and what is
left is code, a quoted text or nothing. Only the flag of a script and the end of its code cannot be
told apart. So two nodes with one label and one flag say the same (`Node.bare_eq_of_label_eq`).
-/

namespace HamlTree

open Text

namespace Node

/-! ### The first character -/

/-- The character that the labels of a kind begin with. -/
def Kind.initial : Kind → Char
  | element => '%'
  | script mode => mode.marker
  | leaf .doctype => '!'
  | leaf .comment => '/'
  | leaf .plainText => '"'

theorem Kind.initial_injective : Function.Injective Kind.initial := by
  rintro (- | (- | -) | (- | - | -)) (- | (- | -) | (- | - | -)) h
  all_goals first | rfl | exact absurd h (by decide)

theorem Kind.initial_ne_space (kind : Kind) : kind.initial ≠ ' ' := by
  rcases kind with - | (- | -) | (- | - | -) <;> decide

/-- What the label of an element has after that of its declaration. -/
def inlineLabel : Option Node → List Char
  | none => []
  | some inline => ' ' :: inline.label.toList

theorem toList_label_element (d : Declaration) (inline : Option Node) (children : List Node) :
    (element d inline children).label.toList = d.label.toList ++ inlineLabel inline := by
  rcases inline with - | inline
  · exact (List.append_nil _).symm
  · simp [label, inlineLabel, String.toList_append]

theorem toList_label_script (mode : ScriptMode) (code : String) (midBlock : Bool)
    (children : List Node) : (script mode code midBlock children).label.toList =
      mode.marker :: ' ' :: (code.toList ++ if midBlock then " [mid-block]".toList else []) := by
  cases midBlock <;> simp [label, String.toList_append]

/-- **The first character of a label tells the kind of the node.** -/
theorem head?_label {n : Node} (h : n.bare.Readable) :
    n.label.toList.head? = some n.kind.initial := by
  match n with
  | element d inline _ =>
    obtain ⟨rest, hrest⟩ := exists_label_eq d
    rw [toList_label_element, hrest]
    rfl
  | script mode code midBlock _ =>
    rw [toList_label_script]
    rfl
  | leaf .doctype text =>
    rcases h with - | - | - | ⟨-, rest, rfl⟩
    rw [label, String.toList_ofList]
    rfl
  | leaf .comment text =>
    rw [label, String.toList_append]
    rfl
  | leaf .plainText text =>
    rw [label, toList_quote]
    rfl

/-! ### Labels are on one line -/

theorem unbroken_label_script {mode : ScriptMode} {code : String}
    (hcode : ∀ c ∈ code.toList, Line.isLineEnd c = false) (midBlock : Bool)
    (children : List Node) :
    ∀ c ∈ (script mode code midBlock children).label.toList, Line.isLineEnd c = false := by
  have hmarker : Line.isLineEnd mode.marker = false := by cases mode <;> decide
  have hsuffix : ∀ c ∈ if midBlock then " [mid-block]".toList else [],
      Line.isLineEnd c = false := by
    rcases midBlock with - | -
    · exact List.forall_mem_nil _
    · exact List.forall_iff_forall_mem.1 (by decide)
  rw [toList_label_script]
  simp only [List.forall_mem_cons, List.forall_mem_append]
  exact ⟨hmarker, by decide, hcode, hsuffix⟩

/-- No label has a line end in it. -/
theorem unbroken_label {n : Node} (h : n.bare.Readable) :
    ∀ c ∈ n.label.toList, Line.isLineEnd c = false := by
  match n with
  | element d inline _ =>
    rcases h with ⟨hd, hinline⟩
    rw [toList_label_element, List.forall_mem_append]
    refine ⟨(tidy_label hd).unbroken, ?_⟩
    rcases hinline with - | ⟨hcode, -⟩ | -
    · exact List.forall_mem_nil _
    · refine List.forall_mem_cons.2 ⟨by decide, unbroken_label_script ?_ false []⟩
      rw [String.toList_ofList]
      exact hcode.unbroken
    · exact List.forall_mem_cons.2 ⟨by decide, unbroken_quote _⟩
  | script mode code midBlock _ =>
    rcases h with - | ⟨_, hcode, -⟩
    refine unbroken_label_script ?_ midBlock _
    rw [String.toList_ofList]
    exact hcode.unbroken
  | leaf .doctype text =>
    rcases h with - | - | - | ⟨htext, -⟩
    rw [label, String.toList_ofList]
    exact htext.unbroken
  | leaf .comment text =>
    rcases h with - | - | ⟨htext⟩
    rw [label, String.toList_append, List.forall_mem_append]
    refine ⟨List.forall_iff_forall_mem.1 (by decide), ?_⟩
    rw [String.toList_ofList]
    exact htext.unbroken
  | leaf .plainText text => exact unbroken_quote text

/-! ### Reading a label -/

/-- What the label of an element has after that of its declaration can be the content of an
element. -/
theorem exists_inlineContent_inlineLabel {inline : Option Node} (h : ReadableInline inline) :
    ∃ content, inlineContent (inlineLabel inline) = .ok content := by
  have htrim : ∀ {c : Char} (s : List Char), isBlank c = false →
      trimStart (' ' :: c :: s) = c :: s := fun {c} s hc ↦ by
    rw [trimStart_cons, if_pos (by decide), trimStart_cons, hc]
    rfl
  cases h with
  | none => exact ⟨none, rfl⟩
  | @script code hcode hne =>
    have hread : trimStart (inlineLabel (some (script .output (String.ofList code) false []))) =
        '=' :: ' ' :: code := by
      rw [inlineLabel, toList_label_script, String.toList_ofList, if_neg Bool.false_ne_true,
        List.append_nil]
      exact htrim _ (by decide)
    refine ⟨_, inlineContent_eq_ok_iff.2 (.inr (.inl ⟨_, hread, ?_, rfl⟩))⟩
    rwa [hcode.trimStart_cons]
  | @text text htext hne hmark =>
    have hread : trimStart (inlineLabel (some (leaf .plainText (String.ofList text)))) =
        (quote (String.ofList text)).toList := by
      rw [inlineLabel, label, toList_quote]
      exact htrim _ (by decide)
    refine ⟨_, inlineContent_eq_ok_iff.2 (.inr (.inr ⟨?_, ?_, rfl⟩))⟩
    · rw [hread, toList_quote]
      exact List.cons_ne_nil _ _
    · rw [hread, toList_quote]
      exact fun h ↦ absurd (Option.some.inj h) (by decide)

theorem exists_of_kind_eq_script {mode : ScriptMode} :
    ∀ {n : Node}, n.kind = .script mode → ∃ code midBlock children,
      n = script mode code midBlock children
  | script _ code midBlock children, rfl => ⟨code, midBlock, children, rfl⟩

/-- The label of a script tells its code, if the flag is known. -/
theorem code?_eq_of_label_eq {mode : ScriptMode} {n n' : Node} (heq : n.label = n'.label)
    (hkind : n.kind = .script mode) (hkind' : n'.kind = .script mode)
    (hflag : n.midBlock = n'.midBlock) : n.code? = n'.code? := by
  obtain ⟨code, midBlock, children, rfl⟩ := exists_of_kind_eq_script hkind
  obtain ⟨code', midBlock', children', rfl⟩ := exists_of_kind_eq_script hkind'
  obtain rfl : midBlock = midBlock' := hflag
  have hlist := congrArg String.toList heq
  rw [toList_label_script, toList_label_script] at hlist
  obtain ⟨-, hlist⟩ := List.cons.inj hlist
  obtain ⟨-, hlist⟩ := List.cons.inj hlist
  show some code = some code'
  rw [String.toList_inj.1 (List.append_cancel_right hlist)]

/-- The rest of the label of an element tells its inline node. -/
theorem inlineLabel_inj {inline inline' : Option Node} (h : ReadableInline inline)
    (h' : ReadableInline inline') (heq : inlineLabel inline = inlineLabel inline') :
    inline = inline' := by
  have hquote : ∀ {mode : ScriptMode} {code text : String} {midBlock : Bool},
      (script mode code midBlock []).label.toList ≠ (leaf .plainText text).label.toList := by
    intro mode code text midBlock heq
    rw [toList_label_script, label, toList_quote] at heq
    exact absurd (List.cons.inj heq).1 (by cases mode <;> decide)
  cases h with
  | none =>
    cases h' with
    | none => rfl
    | script | text => exact absurd heq.symm (List.cons_ne_nil _ _)
  | script =>
    cases h' with
    | none => exact absurd heq (List.cons_ne_nil _ _)
    | script =>
      have hlabel := String.toList_inj.1 (List.cons.inj heq).2
      rw [Option.some.inj (code?_eq_of_label_eq hlabel rfl rfl rfl)]
    | text => exact absurd (List.cons.inj heq).2 hquote
  | text =>
    cases h' with
    | none => exact absurd heq (List.cons_ne_nil _ _)
    | script => exact absurd (List.cons.inj heq).2.symm hquote
    | text => rw [quote_injective (String.toList_inj.1 (List.cons.inj heq).2)]

/-- The label of an element tells its declaration and its inline node. -/
theorem element_inj_of_label {d d' : Declaration} {inline inline' : Option Node}
    (hd : d.Readable) (hd' : d'.Readable) (hinline : ReadableInline inline)
    (hinline' : ReadableInline inline')
    (heq : d.label.toList ++ inlineLabel inline = d'.label.toList ++ inlineLabel inline') :
    d = d' ∧ inline = inline' := by
  have hhead : ∀ inline, ∀ c ∈ (inlineLabel inline).head?, c ∈ [' ', '='] := by
    rintro (- | _)
    · simp [inlineLabel]
    · simp [inlineLabel]
  obtain ⟨content, hcontent⟩ := exists_inlineContent_inlineLabel hinline
  obtain ⟨content', hcontent'⟩ := exists_inlineContent_inlineLabel hinline'
  -- the scanner finds the end of the declaration
  have hread := ofElement_label_append hd (hhead inline) hcontent
  have hread' := ofElement_label_append hd' (hhead inline') hcontent'
  rw [heq, hread'] at hread
  obtain ⟨rfl, -⟩ := Node.element.inj (Except.ok.inj hread)
  exact ⟨rfl, inlineLabel_inj hinline hinline' (List.append_cancel_left heq)⟩

theorem exists_of_kind_eq_element :
    ∀ {n : Node}, n.kind = .element → ∃ d inline children, n = element d inline children
  | element d inline children, _ => ⟨d, inline, children, rfl⟩

theorem exists_of_kind_eq_leaf {kind : LeafKind} :
    ∀ {n : Node}, n.kind = .leaf kind → ∃ text, n = leaf kind text
  | leaf _ text, rfl => ⟨text, rfl⟩

/-- **Two nodes with the same label say the same**, if their flags are the same. -/
theorem bare_eq_of_label_eq {n n' : Node} (h : n.bare.Readable) (h' : n'.bare.Readable)
    (hflag : n.kind = n'.kind → n.midBlock = n'.midBlock) (heq : n.label = n'.label) :
    n.bare = n'.bare := by
  have hkind : n.kind = n'.kind := by
    refine Kind.initial_injective (Option.some.inj ?_)
    rw [← head?_label h, ← head?_label h', heq]
  have hlist := congrArg String.toList heq
  match n with
  | element d inline _ =>
    obtain ⟨d', inline', _, rfl⟩ := exists_of_kind_eq_element hkind.symm
    rcases h with ⟨hd, hinline⟩
    rcases h' with ⟨hd', hinline'⟩
    rw [toList_label_element, toList_label_element] at hlist
    obtain ⟨rfl, rfl⟩ := element_inj_of_label hd hd' hinline hinline' hlist
    rfl
  | script mode code midBlock _ =>
    obtain ⟨code', midBlock', _, rfl⟩ := exists_of_kind_eq_script hkind.symm
    obtain rfl : midBlock = midBlock' := hflag rfl
    obtain rfl := Option.some.inj (code?_eq_of_label_eq heq rfl rfl rfl)
    rfl
  | leaf kind text =>
    obtain ⟨text', rfl⟩ := exists_of_kind_eq_leaf hkind.symm
    have htext : text = text' := by
      rcases kind with - | - | -
      · exact heq
      · rw [label, label, String.toList_append, String.toList_append] at hlist
        exact String.toList_inj.1 (List.append_cancel_left hlist)
      · exact quote_injective heq
    rw [htext]

end Node

end HamlTree
