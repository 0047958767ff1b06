import SlimSvg.Proofs.Xml.Tags

namespace SlimSvg
namespace Xml

/-!
# Reading content

The content of an element is read piece by piece, and each piece is put behind the last
child of the element that is open.  A text that can be read so can be put behind another
one, and the end tag of the element makes one node of all that was read.
-/

/-! ## Tags in nodes -/

/-- The names of a tag with their namespaces: its own one, and those of its attributes. -/
def StartTag.names (tag : StartTag) : List (Option String × String) :=
  (tag.uri, tag.localName) :: tag.attributes.map fun a => (a.uri, a.localName)

namespace Node

mutual

/-- The start tags in a node, in document order. -/
def tags : Node → List StartTag
  | .element tag children => tag :: allTags children
  | _ => []

def allTags : List Node → List StartTag
  | [] => []
  | n :: rest => n.tags ++ allTags rest

end

theorem allTags_append (first second : List Node) : allTags (first ++ second) = allTags first ++ allTags second := by
  induction first with
  | nil => rfl
  | cons n rest inductionHypothesis =>
      rw [List.cons_append, allTags, allTags, inductionHypothesis, List.append_assoc]

theorem allTags_singleton (n : Node) : allTags [n] = n.tags :=
  List.append_nil n.tags

theorem allTags_leaves {nodes : List Node} (leaves : ∀ n ∈ nodes, n.isElement = false) : allTags nodes = [] := by
  induction nodes with
  | nil => rfl
  | cons n rest inductionHypothesis =>
      rw [allTags, inductionHypothesis fun m listed => leaves m (List.mem_cons_of_mem n listed)]
      have leaf := leaves n List.mem_cons_self
      cases n with
      | element tag children => cases leaf
      | _ => rfl

end Node

/-! ## What is put into an open element -/

/-- A part of content that was read: some characters, which become a part of a text, or a
whole node. -/
inductive Item where
  | text (chars : List Char)
  | node (node : Node)

/-- The children of an open element, the last one first, and whether the last one may
still grow. -/
structure Children where
  reversed : List Node
  grows : Bool

namespace Children

def start : Children := ⟨[], false⟩

/-- Put an item behind the last child, or into it. -/
def add (children : Children) : Item → Children
  | .text chars =>
    match children.grows, children.reversed with
    | true, .text before :: rest => ⟨.text (before ++ String.ofList chars) :: rest, true⟩
    | true, others => ⟨others, true⟩
    | false, others => ⟨.text (String.ofList chars) :: others, true⟩
  | .node n => ⟨n :: children.reversed, false⟩

def addAll (children : Children) (items : List Item) : Children :=
  items.foldl add children

theorem addAll_append (children : Children) (first second : List Item) :
    children.addAll (first ++ second) = (children.addAll first).addAll second :=
  List.foldl_append

end Children

namespace Item

/-- The node of an item that stands alone. -/
def alone : Item → Node
  | text chars => .text (String.ofList chars)
  | node n => n

def isText : Item → Bool
  | text _ => true
  | node _ => false

/-- Whether no two texts stand next to each other. -/
def Apart : List Item → Prop
  | first :: second :: rest => (first.isText && second.isText) = false ∧ Apart (second :: rest)
  | _ => True

/-- Texts that stand apart do not grow together. -/
theorem addAll_of_apart {items : List Item} (apart : Apart items) {children : Children}
    (fresh : children.grows = true → (items.head?.map isText).getD false = false) :
    (children.addAll items).reversed = (items.map alone).reverse ++ children.reversed := by
  induction items generalizing children with
  | nil => rfl
  | cons item rest inductionHypothesis =>
      have restApart : Apart rest := by
        cases rest with
        | nil => exact True.intro
        | cons second rest => exact apart.2
      have nextFresh : (children.add item).grows = true → (rest.head?.map isText).getD false = false := by
        cases rest with
        | nil => exact fun _ => rfl
        | cons second rest =>
            intro grows
            cases item with
            | text chars => exact apart.1
            | node n => cases grows
      have later := inductionHypothesis restApart nextFresh
      rw [Children.addAll] at later
      rw [Children.addAll, List.foldl_cons, later, List.map_cons, List.reverse_cons, List.append_assoc]
      congr 1
      cases item with
      | node n => rfl
      | text chars =>
          cases grown : children.grows with
          | true => cases fresh grown
          | false =>
              rw [Children.add, grown]
              rfl

end Item

/-- However texts grow together, all tags stay. -/
theorem Children.allTags_addAll (children : Children) (items : List Item) :
    Node.allTags (children.addAll items).reversed.reverse =
      Node.allTags children.reversed.reverse ++ Node.allTags (items.map Item.alone) := by
  have added (children : Children) (item : Item) : Node.allTags (children.add item).reversed.reverse =
      Node.allTags children.reversed.reverse ++ item.alone.tags := by
    rcases children with ⟨reversed, grows⟩
    cases item with
    | node n => rw [add, List.reverse_cons, Node.allTags_append, Node.allTags_singleton]; rfl
    | text chars =>
        change _ = _ ++ []
        rw [List.append_nil]
        rw [add]
        split
        · next before rest grown last =>
          rw [last, List.reverse_cons, List.reverse_cons, Node.allTags_append, Node.allTags_append]
          rfl
        · rfl
        · rw [List.reverse_cons, Node.allTags_append]
          exact List.append_nil _
  induction items generalizing children with
  | nil => exact (List.append_nil _).symm
  | cons item rest inductionHypothesis =>
      rw [addAll, List.foldl_cons, ← addAll, inductionHypothesis, added, List.append_assoc]
      rfl

namespace Builder

/-- A builder whose innermost open element has certain children, behind some start tag. -/
def fill (b : Builder) (inner : OpenElement) (outer : List OpenElement) (children : Children)
    (tag : Option PendingTag) : Builder :=
  { b with
    openElements := { inner with children := children.reversed } :: outer
    afterText := children.grows
    tag := tag }

variable {b : Builder} {inner : OpenElement} {outer : List OpenElement} {children : Children}
  {tag : Option PendingTag}

theorem appendText_fill (chars : List Char) (o : Nat) :
    (b.fill inner outer children tag).appendText chars o =
      b.fill inner outer (children.add (.text chars)) tag := by
  rcases children with ⟨reversed, grows⟩
  cases grows with
  | false => rfl
  | true =>
      cases reversed with
      | nil => rfl
      | cons n rest => cases n <;> rfl

end Builder

namespace Build

/-! ## Steps of the loop -/

section Steps

variable (expand : (after : Nat) → Cursor → Build Unit) (bound count : Nat) {o : Nat} {cs : List Char}
  {b last : Builder} {behind : Cursor}

theorem same_content_remark {r : Remark} (gives : r.step.Gives b ⟨r.text ++ cs, o⟩ () last behind) :
    Same (content entityDepth expand (bound + 1) (count + 1)) b ⟨r.text ++ cs, o⟩
      (content entityDepth expand bound (count + 1)) last behind := by
  rw [content]
  refine (gives_lift (Scan.gives_rest _) b).bind_same.trans ?_
  cases r with
  | comment text =>
      refine (gives_lift (Scan.gives_looksAt "<!--" _) b).bind_same.trans ?_
      exact gives.bind_same
  | instruction name value => exact gives.bind_same

theorem same_content_section (gives : characterSection.Gives b ⟨"<![CDATA[".toList ++ cs, o⟩ () last behind) :
    Same (content entityDepth expand (bound + 1) (count + 1)) b ⟨"<![CDATA[".toList ++ cs, o⟩
      (content entityDepth expand bound (count + 1)) last behind := by
  rw [content]
  refine (gives_lift (Scan.gives_rest _) b).bind_same.trans ?_
  refine (gives_lift (Scan.gives_looksAt "<!--" _) b).bind_same.trans ?_
  refine (gives_lift (Scan.gives_looksAt "<![CDATA[" _) b).bind_same.trans ?_
  exact gives.bind_same

theorem same_content_endTag (gives : endTagText.Gives b ⟨'<' :: '/' :: cs, o⟩ () last behind) :
    Same (content entityDepth expand (bound + 1) (count + 1)) b ⟨'<' :: '/' :: cs, o⟩
      (content entityDepth expand bound count) last behind := by
  rw [content]
  refine (gives_lift (Scan.gives_rest _) b).bind_same.trans ?_
  exact gives.bind_same

theorem same_content_startTag {c : Char} (named : isNameChar c = true) {opened : Bool}
    (gives : (startTag entityDepth).Gives b ⟨'<' :: c :: cs, o⟩ opened last behind) :
    Same (content entityDepth expand (bound + 1) (count + 1)) b ⟨'<' :: c :: cs, o⟩
      (content entityDepth expand bound (if opened then count + 2 else count + 1)) last behind := by
  have apart := Scan.notMem_marks named
  simp only [Scan.marks, List.mem_cons, not_or] at apart
  rw [content]
  refine (gives_lift (Scan.gives_rest _) b).bind_same.trans ?_
  dsimp only
  split
  · next same => cases same
  · next same => cases same; exact absurd rfl apart.2.2.2.2.2.2.2.2.2.2.2.1
  · next same => cases same; exact absurd rfl apart.2.2.2.2.2.2.2.2.2.2.1
  · next same => cases same; exact absurd rfl apart.2.2.2.2.1
  · next same => cases same
  · exact gives.bind_same
  · next same => exact absurd rfl (same _)

theorem same_content_text {c : Char} (plain : c ≠ '<')
    (gives : (text false expand).Gives b ⟨c :: cs, o⟩ () last behind) :
    Same (content entityDepth expand (bound + 1) (count + 1)) b ⟨c :: cs, o⟩
      (content entityDepth expand bound (count + 1)) last behind := by
  rw [content]
  refine (gives_lift (Scan.gives_rest _) b).bind_same.trans ?_
  dsimp only
  split
  case h_7 => exact gives.bind_same
  all_goals next same => cases same <;> exact absurd rfl plain

end Steps

/-! ## What may be read -/

/-- What may be read where certain namespaces are in force: some characters are content,
and what is read has a property.  Anything may stand behind them if they are closed, and
otherwise only a tag. -/
def Reads (isClosed : Bool) (namespaces : Namespaces) (cs : List Char) (P : List Item → Prop) : Prop :=
  ∀ (b : Builder) (inner : OpenElement) (outer : List OpenElement) (children : Children) (tag : PendingTag),
    inner.tag.namespaces = namespaces → b.attributes = [] → b.declared = [] →
      ∀ (expand : Nat → Cursor → Build Unit) (count bound : Nat) (rest : List Char) (o : Nat),
        (isClosed = true ∨ ∃ more, rest = '<' :: more) → (cs ++ rest).length < bound →
          ∃ items, P items ∧ ∃ bound' lastTag, rest.length < bound' ∧
            Same (content entityDepth expand bound (count + 1)) (b.fill inner outer children (some tag))
              ⟨cs ++ rest, o⟩
              (content entityDepth expand bound' (count + 1))
              (b.fill inner outer (children.addAll items) (some lastTag)) (.behind rest o cs)

namespace Reads

variable {namespaces : Namespaces} {isClosed isClosedToo : Bool} {cs ds : List Char} {P Q : List Item → Prop}
  {attrs : List SpelledAttribute}

theorem of_imp (reads : Reads isClosed namespaces cs P) (implied : ∀ items, P items → Q items) :
    Reads isClosed namespaces cs Q := by
  intro b inner outer children tag inForce noAttributes noDeclarations expand count bound rest o fits enough
  rcases reads b inner outer children tag inForce noAttributes noDeclarations expand count bound rest o fits enough
    with ⟨items, holds, later⟩
  exact ⟨items, implied items holds, later⟩

/-- What anything may follow a tag may follow. -/
theorem of_closed (reads : Reads true namespaces cs P) : Reads isClosed namespaces cs P := by
  intro b inner outer children tag inForce noAttributes noDeclarations expand count bound rest o _ enough
  exact reads b inner outer children tag inForce noAttributes noDeclarations expand count bound rest o (Or.inl rfl)
    enough

theorem nil (namespaces : Namespaces) : Reads true namespaces [] (· = []) := by
  intro b inner outer children tag _ _ _ expand count bound rest o _ enough
  exact ⟨[], rfl, bound, tag, enough, rfl⟩

/-- Content behind content is content, if it begins with a tag or what it follows is
closed. -/
theorem append (first : Reads isClosed namespaces cs P) (second : Reads isClosedToo namespaces ds Q)
    (fits : isClosed = true ∨ ∃ more, ds = '<' :: more) :
    Reads isClosedToo namespaces (cs ++ ds) fun items =>
      ∃ before after, items = before ++ after ∧ P before ∧ Q after := by
  intro b inner outer children tag inForce noAttributes noDeclarations expand count bound rest o fitsRest enough
  rw [List.append_assoc] at enough ⊢
  have fitsBoth : isClosed = true ∨ ∃ more, ds ++ rest = '<' :: more := by
    rcases fits with closed | ⟨more, rfl⟩
    · exact Or.inl closed
    · exact Or.inr ⟨more ++ rest, rfl⟩
  rcases first b inner outer children tag inForce noAttributes noDeclarations expand count bound (ds ++ rest) o
    fitsBoth enough with ⟨before, holds, middle, middleTag, enoughLeft, same⟩
  rcases second b inner outer (children.addAll before) middleTag inForce noAttributes noDeclarations expand count
    middle rest (o + cs.length) fitsRest enoughLeft with ⟨after, holdsToo, bound', lastTag, left, sameToo⟩
  refine ⟨before ++ after, ⟨before, after, rfl, holds, holdsToo⟩, bound', lastTag, left, ?_⟩
  rw [← Cursor.behind_append, Children.addAll_append]
  exact same.trans sameToo

/-! ### Comments, instructions and texts -/

theorem remark {r : Remark} (readable : r.isReadable = true) :
    Reads true namespaces r.text (· = [.node r.node]) := by
  intro b inner outer children tag _ _ _ expand count bound rest o _ enough
  obtain ⟨n, rfl⟩ : ∃ n, bound = n + 1 := ⟨bound - 1, by omega⟩
  refine ⟨_, rfl, n, tag, ?_, same_content_remark expand n count (gives_remark readable _ rest o)⟩
  have positive := r.length_text_pos
  rw [List.length_append] at enough
  omega

/-- A character data section is read. -/
theorem characterSection {text : List Char} (chars : ∀ d ∈ text, isXmlChar d = true)
    (absent : Text.hasPiece "]]>".toList text = false) :
    Reads true namespaces ("<![CDATA[".toList ++ (text ++ "]]>".toList))
      (· = [.text (normalizeLineEnds text)]) := by
  intro b inner outer children tag _ _ _ expand count bound rest o _ enough
  rw [List.append_assoc, List.append_assoc] at enough ⊢
  obtain ⟨n, rfl⟩ : ∃ n, bound = n + 1 := ⟨bound - 1, by omega⟩
  have same := same_content_section expand n count
    (gives_characterSection chars absent (b.fill inner outer children (some tag)) rest o)
  rw [Builder.appendText_fill] at same
  refine ⟨_, rfl, n, tag, ?_, same⟩
  rw [List.length_append, List.length_append, List.length_append] at enough
  have opening : "<![CDATA[".toList.length = 9 := rfl
  omega

/-- A text is read up to the next tag, in one way wherever it stands. -/
theorem exists_text {written spelt : List Char} (spells : Spells written spelt) (nonempty : written ≠ [])
    (chars : ∀ d ∈ written, isXmlChar d = true ∧ d ≠ '<')
    (noEnd : Text.hasPiece [']', ']', '>'] written = false) (namespaces : Namespaces) :
    ∃ whole, Reads false namespaces written (· = [.text whole]) ∧ ('\r' ∉ spelt → whole = spelt) ∧
      ∀ d ∈ whole, d ∈ spelt ∨ d = '\n' := by
  rcases exists_gives_text spells nonempty chars noEnd with ⟨whole, gives, plain, wholeChars⟩
  refine ⟨whole, ?_, plain, wholeChars⟩
  intro b inner outer children tag _ _ _ expand count bound _ o fits enough
  rcases fits with ⟨⟨⟩⟩ | ⟨rest, rfl⟩
  obtain ⟨n, rfl⟩ : ∃ n, bound = n + 1 := ⟨bound - 1, by omega⟩
  rcases List.exists_cons_of_ne_nil nonempty with ⟨c, cs, rfl⟩
  have same := same_content_text expand n count (chars c List.mem_cons_self).2
    (gives expand (b.fill inner outer children (some tag)) rest o)
  rw [Builder.appendText_fill] at same
  refine ⟨_, rfl, n, tag, ?_, same⟩
  rw [List.cons_append, List.length_cons, List.length_append] at enough
  omega

theorem text {written spelt : List Char} (spells : Spells written spelt) (nonempty : written ≠ [])
    (chars : ∀ d ∈ written, isXmlChar d = true ∧ d ≠ '<')
    (noEnd : Text.hasPiece [']', ']', '>'] written = false) :
    Reads false namespaces written fun items => ∃ whole, items = [.text whole] ∧ ('\r' ∉ spelt → whole = spelt) := by
  rcases exists_text spells nonempty chars noEnd namespaces with ⟨whole, reads, plain, -⟩
  exact reads.of_imp fun _ same => ⟨whole, same, plain⟩

/-! ### Elements -/

/-- What an element with certain content is read as. -/
def elementOf (tag : StartTag) (items : List Item) : Node :=
  .element tag (Children.start.addAll items).reversed.reverse

/-- The content of an element is read, and its end tag closes it. -/
theorem same_closed (reads : Reads isClosed namespaces cs P) {b : Builder} {tag : StartTag} (offset : Nat)
    (outer : List OpenElement) (pending : PendingTag) (inForce : tag.namespaces = namespaces)
    {name : Scan.QName} (readable : name.isReadable = true) (named : name = ⟨tag.writtenPrefix, tag.localName⟩)
    (noAttributes : b.attributes = []) (noDeclarations : b.declared = [])
    (expand : Nat → Cursor → Build Unit) (count : Nat) {bound : Nat} {rest : List Char} (o : Nat)
    (enough : (cs ++ (endText name ++ rest)).length < bound) :
    ∃ items, P items ∧ ∃ bound' lastTag, rest.length < bound' ∧
      Same (content entityDepth expand bound (count + 1)) (b.fill ⟨tag, offset, []⟩ outer .start (some pending))
        ⟨cs ++ (endText name ++ rest), o⟩
        (content entityDepth expand bound' count)
        { (b.fill ⟨tag, offset, []⟩ outer (Children.start.addAll items) (some lastTag)).closeInner with
          afterText := false }
        (.behind rest o (cs ++ endText name)) := by
  rcases reads b ⟨tag, offset, []⟩ outer .start pending inForce noAttributes noDeclarations expand count bound
    (endText name ++ rest) o (Or.inr ⟨_, rfl⟩) enough with ⟨items, holds, left, lastTag, more, same⟩
  obtain ⟨n, rfl⟩ : ∃ n, left = n + 1 := ⟨left - 1, by omega⟩
  have closes := same_content_endTag expand n count
    (gives_endTagText (b := b.fill ⟨tag, offset, []⟩ outer (Children.start.addAll items) (some lastTag))
      readable rfl named rfl noAttributes noDeclarations rest (o + cs.length))
  refine ⟨items, holds, n, lastTag, ?_, ?_⟩
  · rw [List.length_append, endText, List.length_cons] at more
    omega
  · rw [← Cursor.behind_append]
    exact same.trans closes

/-- A start tag is read, and the loop goes on behind it. -/
theorem same_opened {name : Scan.QName} {b : Builder} (readable : ReadableTag namespaces name attrs)
    (inForce : b.outerNamespaces = namespaces) (noAttributes : b.attributes = []) (noDeclarations : b.declared = []) (isEmpty : Bool)
    (expand : Nat → Cursor → Build Unit) (count bound : Nat) (rest : List Char) (o : Nat) :
    Same (content entityDepth expand (bound + 1) (count + 1)) b
      ⟨tagText name attrs ++ (closing isEmpty ++ rest), o⟩
      (content entityDepth expand bound (if !isEmpty then count + 2 else count + 1))
      (b.afterTag name (tagOf namespaces name attrs) o isEmpty)
      (.behind rest o (tagText name attrs ++ closing isEmpty)) := by
  subst inForce
  have gives := gives_startTag readable noAttributes noDeclarations isEmpty rest o
  rcases Scan.QName.exists_front readable.named with ⟨front, others, nameChars, start⟩
  rw [tagText, nameChars] at gives ⊢
  exact same_content_startTag expand bound count (Scan.isNameChar_of_isNameStart start) gives

/-- An element is read with its content. -/
theorem element (reads : Reads isClosed (scope namespaces attrs) cs P) {name : Scan.QName}
    (readable : ReadableTag namespaces name attrs) :
    Reads true namespaces (tagText name attrs ++ (closing false ++ (cs ++ endText name))) fun items =>
      ∃ kids, items = [.node (elementOf (tagOf namespaces name attrs) kids)] ∧ P kids := by
  intro b inner outer children pending inForce noAttributes noDeclarations expand count bound rest o _ enough
  subst inForce
  simp only [List.append_assoc] at enough ⊢
  obtain ⟨n, rfl⟩ : ∃ n, bound = n + 1 := ⟨bound - 1, by omega⟩
  have opens := same_opened (b := b.fill inner outer children (some pending)) readable rfl noAttributes noDeclarations
    false expand count n (cs ++ (endText name ++ rest)) o
  have enoughInside : (cs ++ (endText name ++ rest)).length < n := by
    rw [List.length_append, List.length_append, tagText, List.length_cons] at enough
    omega
  rcases same_closed reads o ({ inner with children := children.reversed } :: outer) ⟨name, o⟩
    (show (tagOf inner.tag.namespaces name attrs).namespaces = _ from rfl) readable.named rfl
    noAttributes noDeclarations expand (count + 1) (o + (tagText name attrs ++ closing false).length)
    enoughInside with ⟨kids, holds, left, lastTag, more, closes⟩
  refine ⟨_, ⟨kids, rfl, holds⟩, left, lastTag, more, ?_⟩
  have cleared : (b.fill inner outer children (some pending)).afterTag name (tagOf inner.tag.namespaces name attrs) o
      false = b.fill ⟨tagOf inner.tag.namespaces name attrs, o, []⟩ ({ inner with children := children.reversed } :: outer) .start (some ⟨name, o⟩) := by
    rw [Builder.afterTag, if_neg Bool.false_ne_true, Builder.fill, Builder.fill, noAttributes, noDeclarations]
    rfl
  have place : Cursor.behind rest (o + (tagText name attrs ++ closing false).length) (cs ++ endText name) =
      .behind rest o (tagText name attrs ++ (closing false ++ (cs ++ endText name))) := by
    rw [← List.append_assoc (tagText name attrs)]
    exact Cursor.behind_append _ o _ _
  rw [cleared] at opens
  rw [← place]
  exact opens.trans closes

/-- An element without content is read. -/
theorem emptyElement {name : Scan.QName} (readable : ReadableTag namespaces name attrs) :
    Reads true namespaces (tagText name attrs ++ closing true)
      (· = [.node (elementOf (tagOf namespaces name attrs) [])]) := by
  intro b inner outer children pending inForce noAttributes noDeclarations expand count bound rest o _ enough
  subst inForce
  rw [List.append_assoc] at enough ⊢
  obtain ⟨n, rfl⟩ : ∃ n, bound = n + 1 := ⟨bound - 1, by omega⟩
  have opens := same_opened (b := b.fill inner outer children (some pending)) readable rfl noAttributes noDeclarations
    true expand count n rest o
  refine ⟨_, rfl, n, ⟨name, o⟩, ?_, ?_⟩
  · rw [List.length_append, List.length_append, tagText, List.length_cons] at enough
    omega
  · have cleared : (b.fill inner outer children (some pending)).afterTag name
        (tagOf inner.tag.namespaces name attrs) o true =
          b.fill inner outer (children.addAll [.node (elementOf (tagOf inner.tag.namespaces name attrs) [])])
            (some ⟨name, o⟩) := by
      rw [Builder.afterTag, if_pos rfl, Builder.fill, Builder.fill, noAttributes, noDeclarations]
      rfl
    rw [cleared] at opens
    exact opens

end Reads

/-- Whether some characters are content that is read in one way wherever it may stand, and
what is read has a property. -/
def ReadsAlike (isClosed : Bool) (namespaces : Namespaces) (cs : List Char) (P : List Item → Prop) : Prop :=
  ∃ items, P items ∧ Reads isClosed namespaces cs (· = items)

namespace ReadsAlike

variable {namespaces : Namespaces} {isClosed isClosedToo : Bool} {cs ds : List Char} {P Q : List Item → Prop}
  {attrs : List SpelledAttribute}

theorem of_imp (reads : ReadsAlike isClosed namespaces cs P) (implied : ∀ items, P items → Q items) :
    ReadsAlike isClosed namespaces cs Q := by
  rcases reads with ⟨items, holds, reads⟩
  exact ⟨items, implied items holds, reads⟩

theorem reads (reads : ReadsAlike isClosed namespaces cs P) : Reads isClosed namespaces cs P := by
  rcases reads with ⟨items, holds, reads⟩
  exact reads.of_imp fun _ same => same ▸ holds

theorem of_closed (reads : ReadsAlike true namespaces cs P) : ReadsAlike isClosed namespaces cs P := by
  rcases reads with ⟨items, holds, reads⟩
  exact ⟨items, holds, reads.of_closed⟩

theorem nil (namespaces : Namespaces) : ReadsAlike true namespaces [] (· = []) :=
  ⟨[], rfl, .nil namespaces⟩

theorem append (first : ReadsAlike isClosed namespaces cs P) (second : ReadsAlike isClosedToo namespaces ds Q)
    (fits : isClosed = true ∨ ∃ more, ds = '<' :: more) :
    ReadsAlike isClosedToo namespaces (cs ++ ds) fun items =>
      ∃ before after, items = before ++ after ∧ P before ∧ Q after := by
  rcases first with ⟨before, holds, reads⟩
  rcases second with ⟨after, holdsToo, readsToo⟩
  refine ⟨before ++ after, ⟨before, after, rfl, holds, holdsToo⟩, (reads.append readsToo fits).of_imp ?_⟩
  rintro _ ⟨_, _, rfl, rfl, rfl⟩
  rfl

theorem remark {r : Remark} (readable : r.isReadable = true) :
    ReadsAlike true namespaces r.text (· = [.node r.node]) :=
  ⟨_, rfl, .remark readable⟩

theorem characterSection {text : List Char} (chars : ∀ d ∈ text, isXmlChar d = true)
    (absent : Text.hasPiece "]]>".toList text = false) :
    ReadsAlike true namespaces ("<![CDATA[".toList ++ (text ++ "]]>".toList))
      (· = [.text (normalizeLineEnds text)]) :=
  ⟨_, rfl, .characterSection chars absent⟩

theorem text {written spelt : List Char} (spells : Spells written spelt) (nonempty : written ≠ [])
    (chars : ∀ d ∈ written, isXmlChar d = true ∧ d ≠ '<')
    (noEnd : Text.hasPiece [']', ']', '>'] written = false) :
    ReadsAlike false namespaces written fun items =>
      ∃ whole, items = [.text whole] ∧ ('\r' ∉ spelt → whole = spelt) := by
  rcases Reads.exists_text spells nonempty chars noEnd namespaces with ⟨whole, reads, plain, -⟩
  exact ⟨_, ⟨whole, rfl, plain⟩, reads⟩

theorem element (reads : ReadsAlike isClosed (scope namespaces attrs) cs P) {name : Scan.QName}
    (readable : ReadableTag namespaces name attrs) :
    ReadsAlike true namespaces (tagText name attrs ++ (closing false ++ (cs ++ endText name))) fun items =>
      ∃ kids, items = [.node (Reads.elementOf (tagOf namespaces name attrs) kids)] ∧ P kids := by
  rcases reads with ⟨kids, holds, reads⟩
  refine ⟨_, ⟨kids, rfl, holds⟩, (reads.element readable).of_imp ?_⟩
  rintro _ ⟨_, rfl, rfl⟩
  rfl

theorem emptyElement {name : Scan.QName} (readable : ReadableTag namespaces name attrs) :
    ReadsAlike true namespaces (tagText name attrs ++ closing true)
      (· = [.node (Reads.elementOf (tagOf namespaces name attrs) [])]) :=
  ⟨_, rfl, .emptyElement readable⟩

end ReadsAlike

/-- Whether two texts are content that is read in one way wherever they may stand, and what
is read of the two is related. -/
def ReadsBoth (isClosed : Bool) (namespaces : Namespaces) (cs ds : List Char) (R : List Item → List Item → Prop) : Prop :=
  ∃ items others, R items others ∧ Reads isClosed namespaces cs (· = items) ∧ Reads isClosed namespaces ds (· = others)

namespace ReadsBoth

variable {namespaces : Namespaces} {isClosed isClosedToo : Bool} {cs ds : List Char} {R Q : List Item → List Item → Prop}
  {P : List Item → Prop} {attrs : List SpelledAttribute}

/-- Every text may be read twice. -/
theorem of_alike (reads : ReadsAlike isClosed namespaces cs fun items => R items items) :
    ReadsBoth isClosed namespaces cs cs R := by
  rcases reads with ⟨items, holds, reads⟩
  exact ⟨items, items, holds, reads, reads⟩

theorem of_imp (reads : ReadsBoth isClosed namespaces cs ds R) (implied : ∀ items others, R items others → Q items others) :
    ReadsBoth isClosed namespaces cs ds Q := by
  rcases reads with ⟨items, others, related, reads⟩
  exact ⟨items, others, implied items others related, reads⟩

theorem left (reads : ReadsBoth isClosed namespaces cs ds fun items _ => P items) :
    ReadsAlike isClosed namespaces cs P := by
  rcases reads with ⟨items, others, holds, reads, -⟩
  exact ⟨items, holds, reads⟩

theorem append {csToo dsToo : List Char} (first : ReadsBoth isClosed namespaces cs ds R)
    (second : ReadsBoth isClosedToo namespaces csToo dsToo Q)
    (fits : isClosed = true ∨ ∃ more, csToo = '<' :: more) (fitsToo : isClosed = true ∨ ∃ more, dsToo = '<' :: more) :
    ReadsBoth isClosedToo namespaces (cs ++ csToo) (ds ++ dsToo) fun items others =>
      ∃ a b c d, items = a ++ b ∧ others = c ++ d ∧ R a c ∧ Q b d := by
  rcases first with ⟨a, c, related, reads, readsToo⟩
  rcases second with ⟨b, d, relatedToo, readsNext, readsNextToo⟩
  refine ⟨a ++ b, c ++ d, ⟨a, b, c, d, rfl, rfl, related, relatedToo⟩, (reads.append readsNext fits).of_imp ?_,
    (readsToo.append readsNextToo fitsToo).of_imp ?_⟩
  · rintro _ ⟨_, _, rfl, rfl, rfl⟩
    rfl
  · rintro _ ⟨_, _, rfl, rfl, rfl⟩
    rfl

theorem element (reads : ReadsBoth isClosed (scope namespaces attrs) cs ds R) {name : Scan.QName}
    (readable : ReadableTag namespaces name attrs) :
    ReadsBoth true namespaces (tagText name attrs ++ (closing false ++ (cs ++ endText name)))
      (tagText name attrs ++ (closing false ++ (ds ++ endText name))) fun items others =>
        ∃ kids children, items = [.node (Reads.elementOf (tagOf namespaces name attrs) kids)] ∧
          others = [.node (Reads.elementOf (tagOf namespaces name attrs) children)] ∧ R kids children := by
  rcases reads with ⟨kids, children, related, reads, readsToo⟩
  refine ⟨_, _, ⟨kids, children, rfl, rfl, related⟩, (reads.element readable).of_imp ?_,
    (readsToo.element readable).of_imp ?_⟩
  · rintro _ ⟨_, rfl, rfl⟩
    rfl
  · rintro _ ⟨_, rfl, rfl⟩
    rfl

end ReadsBoth

end Build

end Xml
end SlimSvg
