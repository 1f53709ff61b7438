/-
  TokenGrammar.Proofs.Grammar.NodeSpans

  Where the elements of a grammar stand.  Every element, however deep, is derived from
  items in a row (`Derives.exists_items`), and its span goes from the first of them to the
  last.  Items stand one behind the other and none is empty (`Stretch.fits_items`), and so
  do the elements that are derived from them (`Derives.fits`).
-/

import TokenGrammar.Proofs.Grammar.Stretches
import TokenGrammar.Proofs.Grammar.Visits

namespace TokenGrammar

-- ============================================================================
-- Spans in a row
-- ============================================================================

/-- Whether spans stand one behind the other from one offset up to another, and none of them
    is empty. -/
def Fits : Nat → List Span → Nat → Prop
  | start, [], stop => start ≤ stop
  | start, span :: rest, stop => start ≤ span.start ∧ span.start < span.stop ∧ Fits span.stop rest stop

/-- Whether spans are not empty, stand one behind the other, and lie within another span. -/
structure Span.Encloses (outer : Span) (spans : List Span) : Prop where
  nonempty : ∀ span ∈ spans, span.start < span.stop
  ordered : spans.Pairwise fun span next => span.stop ≤ next.start
  within : ∀ span ∈ spans, outer.start ≤ span.start ∧ span.stop ≤ outer.stop

section Fits

variable {start start' middle stop : Nat} {spans more : List Span}

theorem Fits.le (h : Fits start spans stop) : start ≤ stop := by
  induction spans generalizing start with
  | nil => exact h
  | cons span rest ih =>
      obtain ⟨hstart, hspan, hrest⟩ := h
      have hle := ih hrest
      omega

theorem Fits.of_le (h : Fits start spans stop) (hle : start' ≤ start) : Fits start' spans stop := by
  cases spans with
  | nil => exact Nat.le_trans hle h
  | cons span rest => exact ⟨Nat.le_trans hle h.1, h.2⟩

theorem fits_append_iff :
    Fits start (spans ++ more) stop ↔ ∃ middle, Fits start spans middle ∧ Fits middle more stop := by
  induction spans generalizing start with
  | nil =>
      constructor
      · exact fun h => ⟨start, Nat.le_refl start, h⟩
      · rintro ⟨middle, hle, h⟩
        exact h.of_le hle
  | cons span rest ih =>
      rw [List.cons_append, Fits, ih]
      constructor
      · rintro ⟨hstart, hspan, middle, hrest, hmore⟩
        exact ⟨middle, ⟨hstart, hspan, hrest⟩, hmore⟩
      · rintro ⟨middle, ⟨hstart, hspan, hrest⟩, hmore⟩
        exact ⟨hstart, hspan, middle, hrest, hmore⟩

theorem Fits.append (h : Fits start spans middle) (hmore : Fits middle more stop) :
    Fits start (spans ++ more) stop :=
  fits_append_iff.2 ⟨middle, h, hmore⟩

/-- Spans in a row stay one when some of them are left out. -/
theorem Fits.sublist (h : Fits start spans stop) (hsub : more.Sublist spans) :
    Fits start more stop := by
  induction hsub generalizing start with
  | slnil => exact h
  | cons span _ ih => exact (ih h.2.2).of_le (Nat.le_trans h.1 (Nat.le_of_lt h.2.1))
  | cons_cons span _ ih => exact ⟨h.1, h.2.1, ih h.2.2⟩

/-- What spans in a row are, one by one. -/
theorem Fits.encloses (h : Fits start spans stop) : Span.Encloses ⟨start, stop⟩ spans := by
  induction spans generalizing start with
  | nil => exact ⟨nofun, .nil, nofun⟩
  | cons span rest ih =>
      obtain ⟨hstart, hspan, hrest⟩ := h
      obtain ⟨hnonempty, hordered, hwithin⟩ := ih hrest
      have hle := hrest.le
      refine ⟨List.forall_mem_cons.2 ⟨hspan, hnonempty⟩,
        .cons (fun next hnext => (hwithin next hnext).1) hordered,
        List.forall_mem_cons.2 ⟨⟨hstart, hle⟩, fun next hnext => ?_⟩⟩
      obtain ⟨hlower, hupper⟩ := hwithin next hnext
      dsimp only at hlower hupper ⊢
      omega

/-- The span of items in a row is as large as it has to be. -/
theorem Fits.spanOf {items : List Item} (h : Fits start (items.map Item.span) stop)
    (hne : items ≠ []) :
    Fits start [spanOf items] stop ∧
      Fits (spanOf items).start (items.map Item.span) (spanOf items).stop := by
  obtain ⟨before, last, rfl⟩ := (List.eq_nil_or_concat' items).resolve_left hne
  rw [List.map_append, List.map_singleton] at h ⊢
  obtain ⟨middle, hbefore, hlast, hspan, hstop⟩ := fits_append_iff.1 h
  have hlastStop : (TokenGrammar.spanOf (before ++ [last])).stop = last.span.stop :=
    stop_spanOf_concat before last
  have hrow : Fits start (before.map Item.span ++ [last.span]) last.span.stop :=
    hbefore.append ⟨hlast, hspan, Nat.le_refl _⟩
  rw [Fits, Fits, hlastStop]
  cases before with
  | nil => exact ⟨⟨hrow.1, hspan, hstop⟩, Nat.le_refl _, hspan, Nat.le_refl _⟩
  | cons first rest =>
      have hle := hrow.2.2.le
      exact ⟨⟨hrow.1, Nat.lt_of_lt_of_le hrow.2.1 hle, hstop⟩, Nat.le_refl _, hrow.2⟩

end Fits

-- ============================================================================
-- Elements and their items
-- ============================================================================

/-- The elements of a phrase: itself, or those directly inside of it. -/
def Phrase.nodes : Phrase → List Node
  | .primary (.alternation tried) => tried.flatten
  | .primary _ => []
  | .element node => [node]
  | .sequence nodes => nodes
  | .branches tried => tried.flatten

theorem Primary.children_node (primary : Primary) (adjacent : Bool) (suffixes : List Suffix)
    (span : Span) :
    (primary.node adjacent suffixes span).children = (Phrase.primary primary).nodes := by
  cases primary <;> rfl

section Items

variable {phrase : Phrase} {items : List Item} {start stop : Nat}

/-- The elements of a phrase stand one behind the other, as the items of the phrase do. -/
theorem Derives.fits (h : Derives phrase items) (hitems : Fits start (items.map Item.span) stop) :
    Fits start (phrase.nodes.map Node.span) stop := by
  induction h generalizing start stop with
  | literal => exact hitems.le
  | category => exact hitems.le
  | reference => exact hitems.le
  | @alternation opening closing branches inner _ _ _ ih =>
      have hinner : (inner.map Item.span).Sublist
          ((Item.single opening :: (inner ++ [Item.single closing])).map Item.span) :=
        ((List.sublist_append_left inner _).cons _).map _
      exact ih (hitems.sublist hinner)
  | element hprimary htilde hsigns honce hbracket hwhole _ =>
      have helement := Derives.element hprimary htilde hsigns honce hbracket hwhole
      rw [Phrase.nodes, List.map_singleton, Primary.span_node]
      exact (hitems.spanOf helement.items_ne_nil).1
  | one _ ih => exact ih hitems
  | more _ _ ihnodes ihnode =>
      rw [List.map_append] at hitems
      obtain ⟨middle, hbefore, hlast⟩ := fits_append_iff.1 hitems
      rw [Phrase.nodes, List.map_append]
      exact (ihnodes hbefore).append (ihnode hlast)
  | branch _ ih =>
      rw [Phrase.nodes, List.flatten_singleton]
      exact ih hitems
  | another _ _ _ ihbranches ihnodes =>
      rw [List.map_append] at hitems
      obtain ⟨middle, hbefore, hstart, hbar, hlast⟩ := fits_append_iff.1 hitems
      rw [Phrase.nodes, List.flatten_append, List.flatten_singleton, List.map_append]
      exact (ihbranches hbefore).append
        ((ihnodes hlast).of_le (Nat.le_trans hstart (Nat.le_of_lt hbar)))

/-- An element spans its items, and the elements inside of it stand within. -/
theorem Derives.element_fits {node : Node} (h : Derives (.element node) items)
    (hitems : Fits start (items.map Item.span) stop) :
    node.span = spanOf items ∧
      Fits node.span.start (node.children.map Node.span) node.span.stop := by
  have hspan := (hitems.spanOf h.items_ne_nil).2
  cases h with
  | @element primary own _ tilde signs hprimary _ _ _ _ hwhole =>
      have hsub : own.Sublist items := by
        rw [hwhole]
        exact (List.sublist_append_right _ own).trans (List.sublist_append_left _ _)
      rw [Primary.span_node, Primary.children_node]
      exact ⟨rfl, hprimary.fits (hspan.sublist (hsub.map Item.span))⟩

/-- An element that stands in a phrase is derived from some items of the phrase in a row. -/
theorem Derives.exists_items (h : Derives phrase items) {inner : Node}
    (hinner : Node.StandsIn inner phrase.nodes) :
    ∃ own, own <:+: items ∧ Derives (.element inner) own := by
  rw [Node.standsIn_iff] at hinner
  induction h with
  | literal => exact nomatch hinner
  | category => exact nomatch hinner
  | reference => exact nomatch hinner
  | @alternation opening closing branches inside _ _ _ ih =>
      obtain ⟨own, hown, hderives⟩ := ih hinner
      exact ⟨own, hown.trans ⟨[.single opening], [.single closing], rfl⟩, hderives⟩
  | @element primary own whole tilde signs hprimary htilde hsigns honce hbracket hwhole ih =>
      rw [Phrase.nodes, Node.mem_sequenceVisits] at hinner
      obtain ⟨node, hnode, hvisits⟩ := hinner
      obtain rfl := List.mem_singleton.1 hnode
      rw [Node.visits_eq_cons, Primary.children_node, List.mem_cons] at hvisits
      rcases hvisits with rfl | hvisits
      · exact ⟨whole, List.infix_refl whole,
          .element hprimary htilde hsigns honce hbracket hwhole⟩
      · obtain ⟨inside, hinside, hderives⟩ := ih hvisits
        exact ⟨inside, hinside.trans ⟨_, _, hwhole.symm⟩, hderives⟩
  | one _ ih => exact ih hinner
  | more _ _ ihnodes ihnode =>
      rw [Phrase.nodes, Node.sequenceVisits_append, List.mem_append] at hinner
      rcases hinner with hinner | hinner
      · obtain ⟨own, hown, hderives⟩ := ihnode hinner
        exact ⟨own, hown.trans (List.suffix_append _ _).isInfix, hderives⟩
      · obtain ⟨own, hown, hderives⟩ := ihnodes hinner
        exact ⟨own, hown.trans (List.prefix_append _ _).isInfix, hderives⟩
  | branch _ ih =>
      rw [Phrase.nodes, List.flatten_singleton] at hinner
      exact ih hinner
  | @another branches nodes before items bar _ _ _ ihbranches ihnodes =>
      rw [Phrase.nodes, List.flatten_append, List.flatten_singleton, Node.sequenceVisits_append,
        List.mem_append] at hinner
      rcases hinner with hinner | hinner
      · obtain ⟨own, hown, hderives⟩ := ihnodes hinner
        have hbehind : items <:+ before ++ .single bar :: items :=
          (List.suffix_cons _ items).trans (List.suffix_append _ _)
        exact ⟨own, hown.trans hbehind.isInfix, hderives⟩
      · obtain ⟨own, hown, hderives⟩ := ihbranches hinner
        exact ⟨own, hown.trans (List.prefix_append _ _).isInfix, hderives⟩

end Items

theorem IsFile.items_ne_nil {items : List Item} {rules : List Rule} (h : IsFile items rules) :
    items ≠ [] := by
  cases h with
  | done => exact List.cons_ne_nil _ _
  | line => exact List.cons_ne_nil _ _
  | rule => simp

/-- The items of a rule stand in a row, in front of the end of a line or of the file. -/
theorem IsFile.exists_items {items : List Item} {rules : List Rule} (h : IsFile items rules)
    {rule : Rule} (hrule : rule ∈ rules) :
    ∃ own, own <:+: items.dropLast ∧ IsRule own rule := by
  induction h with
  | done => exact nomatch hrule
  | line _ hrest ih =>
      obtain ⟨own, hown, hisRule⟩ := ih hrule
      rw [List.dropLast_cons_of_ne_nil hrest.items_ne_nil]
      exact ⟨own, hown.trans (List.suffix_cons _ _).isInfix, hisRule⟩
  | @rule items rest first rules next hfirst _ hrest ih =>
      rw [List.dropLast_append_cons]
      rcases List.mem_cons.1 hrule with rfl | hrule
      · exact ⟨items, (List.prefix_append _ _).isInfix, hfirst⟩
      · obtain ⟨own, hown, hisRule⟩ := ih hrule
        exact ⟨own, hown.trans (List.suffix_append _ _).isInfix, hisRule⟩

-- ============================================================================
-- Where items stand
-- ============================================================================

namespace Stretch

/-- The item of a stretch takes up the whole stretch. -/
theorem span_of_item? {stretch : Stretch} {cursor : Cursor} {item : Item}
    (h : stretch.item? cursor = some item) :
    item.span = ⟨cursor.offset, (cursor.afterAll stretch.lexemes).offset⟩ := by
  cases stretch with
  | word => cases h; rfl
  | sign => cases h; rfl
  | literal => cases h; rfl
  | lineEnd => cases h; rfl
  | blanks => cases h
  | comment => cases h
  | continuation => cases h

theorem offset_afterAll (stretch : Stretch) (cursor : Cursor) :
    (cursor.afterAll stretch.lexemes).offset = cursor.offset + byteLength stretch.chars := by
  rw [Cursor.offset_afterAll, flatMap_text_lexemes]

theorem byteLength_pos {stretch : Stretch} (h : stretch.Sound) : 0 < byteLength stretch.chars := by
  obtain ⟨c, rest, hchars⟩ := List.exists_cons_of_ne_nil h.chars_ne_nil
  have hc := c.utf8Size_pos
  rw [hchars]
  show 0 < c.utf8Size + byteLength rest
  omega

/-- Items stand one behind the other, and none is empty. -/
theorem fits_items {stretches : List Stretch} (h : ∀ stretch ∈ stretches, stretch.Sound)
    (cursor : Cursor) :
    Fits cursor.offset ((items (placed cursor stretches)).map Item.span)
      (cursor.afterAll (stretches.flatMap lexemes)).offset := by
  induction stretches generalizing cursor with
  | nil => exact Nat.le_refl _
  | cons stretch more ih =>
      obtain ⟨hsound, hmore⟩ := List.forall_mem_cons.1 h
      have hrest := ih hmore (cursor.afterAll stretch.lexemes)
      have hlonger := stretch.offset_afterAll cursor
      have hpos := byteLength_pos hsound
      rw [List.flatMap_cons, Cursor.afterAll_append, placed, items, List.filterMap_cons]
      dsimp only
      cases hitem : stretch.item? cursor with
      | none => exact hrest.of_le (by omega)
      | some item =>
          rw [List.map_cons, span_of_item? hitem]
          exact ⟨Nat.le_refl _, by dsimp only; omega, hrest⟩

end Stretch

theorem joinLines_sublist (depth : Nat) (items : List Item) :
    (joinLines depth items).Sublist items := by
  induction items generalizing depth with
  | nil => exact List.Sublist.refl []
  | cons item rest ih =>
      rw [joinLines]
      split
      · exact (ih depth).cons item
      · exact (ih _).cons_cons item

end TokenGrammar
