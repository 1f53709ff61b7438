/-
  TokenGrammar.Proofs.Grammar.Rereading

  Reading a piece of a source again.  The piece that an element spans is a row of stretches
  that begins and ends with one of an item (`Stretch.exists_of_infix`).  Between brackets
  these stretches have the same items as before, at other places, where line ends that did
  not count do not count either (`Derives.joinLines_spread`), and the same element is
  derived from items at other places (`Derives.isDerivedElsewhere`).

  Main statement: `Grammar.elements_are_read_from_their_spans`.
-/

import TokenGrammar.Proofs.Grammar.NodeSpans
import TokenGrammar.Proofs.Grammar.RoundTrip

namespace TokenGrammar

-- ============================================================================
-- Items at other places
-- ============================================================================

/-- A token without its place. -/
def Token.forgetPlace (token : Token) : Token := ⟨token.cls, token.text, .zero, 0, 0⟩

namespace Item

/-- An item without its place. -/
def forgetPlace : Item → Item
  | .single token => .single token.forgetPlace
  | .literal quote payload close =>
    .literal quote.forgetPlace payload.forgetPlace close.forgetPlace

variable {other : Item}

theorem exists_of_forgetPlace_eq_single {token : Token}
    (h : other.forgetPlace = (Item.single token).forgetPlace) :
    ∃ token', other = .single token' ∧ token'.cls = token.cls ∧ token'.text = token.text := by
  cases other with
  | single token' =>
      simp only [forgetPlace, Token.forgetPlace, Item.single.injEq, Token.mk.injEq] at h
      exact ⟨token', rfl, h.1, h.2.1⟩
  | literal => cases h

theorem exists_of_forgetPlace_eq_sign {token : Token} {text : String}
    (h : other.forgetPlace = (Item.single token).forgetPlace) (hsign : token.isSymbol text = true) :
    ∃ token', other = .single token' ∧ token'.isSymbol text = true := by
  obtain ⟨token', rfl, hcls, htext⟩ := exists_of_forgetPlace_eq_single h
  exact ⟨token', rfl, by rw [Token.isSymbol, hcls, htext]; exact hsign⟩

theorem exists_of_forgetPlace_eq_literal {quote payload close : Token}
    (h : other.forgetPlace = (Item.literal quote payload close).forgetPlace) :
    ∃ quote' payload' close', other = .literal quote' payload' close' ∧
      isLiteral quote' payload' close' = isLiteral quote payload close ∧
      payload'.text = payload.text := by
  have hforget : ∀ quote payload close : Token,
      isLiteral quote.forgetPlace payload.forgetPlace close.forgetPlace =
        isLiteral quote payload close := fun _ _ _ => rfl
  cases other with
  | single => cases h
  | literal quote' payload' close' =>
      obtain ⟨hquote, hpayload, hclose⟩ := Item.literal.inj h
      have htext : payload'.forgetPlace.text = payload.forgetPlace.text := congrArg Token.text hpayload
      refine ⟨quote', payload', close', rfl, ?_, htext⟩
      rw [← hforget quote', hquote, hpayload, hclose, hforget]

/-- A mark in front of an element at another place is the same mark. -/
theorem exists_mark_of_forgetPlace_eq {mark : Option Token} {sign : String} {others : List Item}
    (h : others.map forgetPlace = (mark.toList.map Item.single).map forgetPlace)
    (hmark : ∀ token ∈ mark, token.isSymbol sign = true) :
    ∃ mark' : Option Token, others = mark'.toList.map Item.single ∧
      (∀ token ∈ mark', token.isSymbol sign = true) ∧ mark'.isSome = mark.isSome := by
  cases mark with
  | none => exact ⟨none, List.map_eq_nil_iff.1 h, by rintro _ ⟨⟩, rfl⟩
  | some token =>
      obtain ⟨other, rfl, hother⟩ := List.map_eq_singleton_iff.1 h
      obtain ⟨token', rfl, htoken'⟩ := exists_of_forgetPlace_eq_sign hother (hmark token rfl)
      exact ⟨some token', rfl, by rintro _ ⟨⟩; exact htoken', rfl⟩

/-- Suffixes at other places are the same suffixes. -/
theorem exists_signs_of_forgetPlace_eq {signs : List (Suffix × Token)} {others : List Item}
    (h : others.map forgetPlace = (signs.map fun sign => Item.single sign.2).map forgetPlace)
    (hsigns : ∀ sign ∈ signs, sign.2.isSymbol (String.singleton sign.1.sign) = true) :
    ∃ signs' : List (Suffix × Token), others = signs'.map (fun sign => Item.single sign.2) ∧
      signs'.map Prod.fst = signs.map Prod.fst ∧
      ∀ sign ∈ signs', sign.2.isSymbol (String.singleton sign.1.sign) = true := by
  induction signs generalizing others with
  | nil => exact ⟨[], List.map_eq_nil_iff.1 h, rfl, nofun⟩
  | cons sign signs ih =>
      obtain ⟨other, rest, rfl, hother, hrest⟩ := List.map_eq_cons_iff.1 h
      obtain ⟨hsign, hsigns⟩ := List.forall_mem_cons.1 hsigns
      obtain ⟨token, rfl, htoken⟩ := exists_of_forgetPlace_eq_sign hother hsign
      obtain ⟨signs', rfl, hfst, hsigns'⟩ := ih hrest hsigns
      exact ⟨(sign.1, token) :: signs', rfl, by rw [List.map_cons, List.map_cons, hfst],
        List.forall_mem_cons.2 ⟨htoken, hsigns'⟩⟩

end Item

/-- What is derived from some items is derived from the same items at other places, but for
    the places of the elements. -/
theorem Derives.isDerivedElsewhere {phrase : Phrase} {items : List Item} (h : Derives phrase items)
    {others : List Item} (hsame : others.map Item.forgetPlace = items.map Item.forgetPlace) :
    phrase.IsDerivedAgain others := by
  induction h generalizing others with
  | literal hliteral =>
      obtain ⟨other, rfl, hother⟩ := List.map_eq_singleton_iff.1 hsame
      obtain ⟨quote, payload, close, rfl, heq, htext⟩ := Item.exists_of_forgetPlace_eq_literal hother
      have hagain := Derives.literal (heq.trans hliteral)
      rw [htext] at hagain
      exact ⟨_, hagain, rfl⟩
  | category hcls htag =>
      obtain ⟨other, rfl, hother⟩ := List.map_eq_singleton_iff.1 hsame
      obtain ⟨token, rfl, hclsEq, htext⟩ := Item.exists_of_forgetPlace_eq_single hother
      exact ⟨_, .category (hclsEq.trans hcls) (htext ▸ htag), rfl⟩
  | reference hcls =>
      obtain ⟨other, rfl, hother⟩ := List.map_eq_singleton_iff.1 hsame
      obtain ⟨token, rfl, hclsEq, htext⟩ := Item.exists_of_forgetPlace_eq_single hother
      have hagain := Derives.reference (hclsEq.trans hcls)
      rw [htext] at hagain
      exact ⟨_, hagain, rfl⟩
  | alternation hopening hclosing _ ih =>
      obtain ⟨first, behind, rfl, hfirst, hbehind⟩ := List.map_eq_cons_iff.1 hsame
      rw [List.map_append, List.map_eq_append_iff] at hbehind
      obtain ⟨inner, rest, rfl, hinner, hrest⟩ := hbehind
      obtain ⟨last, rest, rfl, hlast, hnil⟩ := List.map_eq_cons_iff.1 hrest
      obtain rfl := List.map_eq_nil_iff.1 hnil
      obtain ⟨opening, rfl, hopening⟩ := Item.exists_of_forgetPlace_eq_sign hfirst hopening
      obtain ⟨closing, rfl, hclosing⟩ := Item.exists_of_forgetPlace_eq_sign hlast hclosing
      obtain ⟨again, hagain, heq⟩ := ih hinner
      refine ⟨_, .alternation hopening hclosing hagain, ?_⟩
      rw [Primary.forgetSpans, Primary.forgetSpans, heq]
  | @element primary items whole tilde signs hprimary htilde hsigns honce hbracket hwhole ih =>
      rw [hwhole, List.map_append, List.map_append, List.map_eq_append_iff] at hsame
      obtain ⟨front, behind, rfl, hfront, hbehind⟩ := hsame
      rw [List.map_eq_append_iff] at hfront
      obtain ⟨mark, middle, rfl, hmark, hmiddle⟩ := hfront
      obtain ⟨again, hagain, heq⟩ := ih hmiddle
      obtain ⟨signs', rfl, hfst, hsigns'⟩ := Item.exists_signs_of_forgetPlace_eq hbehind hsigns
      obtain ⟨tilde', rfl, htilde', hisSome⟩ := Item.exists_mark_of_forgetPlace_eq hmark htilde
      have hbracket' : .onceEach ∈ signs'.map Prod.fst → again.isAlternation = true := by
        rw [hfst, ← again.isAlternation_forgetSpans, heq, primary.isAlternation_forgetSpans]
        exact hbracket
      refine ⟨_, .element hagain htilde' hsigns' (hfst ▸ honce) hbracket' rfl, ?_⟩
      rw [Primary.forgetSpans_node, Primary.forgetSpans_node, heq, hfst, hisSome]
  | one _ ih =>
      obtain ⟨again, hagain, heq⟩ := ih hsame
      exact ⟨[again], .one hagain, by rw [List.map_singleton, List.map_singleton, heq]⟩
  | more _ _ ihnodes ihnode =>
      rw [List.map_append, List.map_eq_append_iff] at hsame
      obtain ⟨before, items, rfl, hbefore, hitems⟩ := hsame
      obtain ⟨again, hagain, heq⟩ := ihnodes hbefore
      obtain ⟨last, hlast, hlastEq⟩ := ihnode hitems
      refine ⟨again ++ [last], .more hagain hlast, ?_⟩
      rw [List.map_append, List.map_append, heq, List.map_singleton, List.map_singleton, hlastEq]
  | branch _ ih =>
      obtain ⟨again, hagain, heq⟩ := ih hsame
      exact ⟨[again], .branch hagain, by rw [List.map_singleton, List.map_singleton, heq]⟩
  | another _ hbar _ ihbranches ihnodes =>
      rw [List.map_append, List.map_eq_append_iff] at hsame
      obtain ⟨before, rest, rfl, hbefore, hrest⟩ := hsame
      obtain ⟨other, items, rfl, hother, hitems⟩ := List.map_eq_cons_iff.1 hrest
      obtain ⟨bar, rfl, hbar⟩ := Item.exists_of_forgetPlace_eq_sign hother hbar
      obtain ⟨again, hagain, heq⟩ := ihbranches hbefore
      obtain ⟨last, hlast, hlastEq⟩ := ihnodes hitems
      refine ⟨again ++ [last], .another hagain hbar hlast, ?_⟩
      rw [List.map_append, List.map_append, heq, List.map_singleton, List.map_singleton, hlastEq]

-- ============================================================================
-- Line ends within brackets
-- ============================================================================

section Spread

variable {spread items : List Item} {item : Item} {phrase : Phrase}

theorem joinLines_spread_nil (h : spread.filter (!·.isLine) = []) (depth : Nat) (rest : List Item) :
    joinLines (depth + 1) (spread ++ rest) = joinLines (depth + 1) rest := by
  induction spread with
  | nil => rfl
  | cons first spread ih =>
      obtain ⟨hfirst, hspread⟩ := List.forall_mem_cons.1 (List.filter_eq_nil_iff.1 h)
      have hline : first.isLine = true := by simpa using hfirst
      rw [List.cons_append, joinLines, hline, if_pos (by simp),
        ih (List.filter_eq_nil_iff.2 hspread)]

/-- Within brackets the line ends in front of an item do not count. -/
theorem exists_of_filter_eq_cons (h : spread.filter (!·.isLine) = item :: items) :
    ∃ more, more.filter (!·.isLine) = items ∧ ∀ depth rest, joinLines (depth + 1) (spread ++ rest) =
      item :: joinLines (item.depthBehind (depth + 1)) (more ++ rest) := by
  obtain ⟨lines, more, rfl, hlines, hitem, hmore⟩ := List.filter_eq_cons_iff.1 h
  refine ⟨more, hmore, fun depth rest => ?_⟩
  have hnil : lines.filter (!·.isLine) = [] := List.filter_eq_nil_iff.2 hlines
  have hnot : item.isLine = false := by simpa using hitem
  rw [List.append_assoc, joinLines_spread_nil hnil, List.cons_append, joinLines, hnot,
    if_neg (by simp)]

/-- Items that are no brackets count within brackets, and no line end between them does. -/
theorem joinLines_spread_of_flat (hflat : ∀ item ∈ items, ∀ depth, item.depthBehind depth = depth)
    (h : spread.filter (!·.isLine) = items) (depth : Nat) (rest : List Item) :
    joinLines (depth + 1) (spread ++ rest) = items ++ joinLines (depth + 1) rest := by
  induction items generalizing spread with
  | nil => exact joinLines_spread_nil h depth rest
  | cons item items ih =>
      obtain ⟨hitem, hflat⟩ := List.forall_mem_cons.1 hflat
      obtain ⟨more, hmore, hjoin⟩ := exists_of_filter_eq_cons h
      rw [hjoin, hitem, ih hflat hmore, List.cons_append]

/-- Within brackets all items of a phrase count, and no line end between them does: the
    brackets of the phrase are balanced, so the ones around it stay open. -/
theorem Derives.joinLines_spread (h : Derives phrase items)
    (hspread : spread.filter (!·.isLine) = items) (depth : Nat) (rest : List Item) :
    joinLines (depth + 1) (spread ++ rest) = items ++ joinLines (depth + 1) rest := by
  induction h generalizing spread depth rest with
  | literal => exact joinLines_spread_of_flat (List.forall_mem_singleton.2 fun _ => rfl) hspread _ _
  | category hcls =>
      refine joinLines_spread_of_flat (List.forall_mem_singleton.2 fun depth => ?_) hspread _ _
      exact Item.depthBehind_of_cls_ne (by rw [hcls]; decide) depth
  | reference hcls =>
      refine joinLines_spread_of_flat (List.forall_mem_singleton.2 fun depth => ?_) hspread _ _
      exact Item.depthBehind_of_cls_ne (by rw [hcls]; decide) depth
  | @alternation opening closing branches inner hopening hclosing _ ih =>
      have hopen (depth : Nat) : (Item.single opening).depthBehind depth = depth + 1 := by
        rw [Item.depthBehind, if_pos hopening]
      have hclose (depth : Nat) : (Item.single closing).depthBehind (depth + 1) = depth := by
        rw [Item.depthBehind, if_neg (by simp [Token.isSymbol_eq_false_of_ne hclosing]),
          if_pos hclosing, Nat.add_sub_cancel]
      obtain ⟨more, hmore, hjoin⟩ := exists_of_filter_eq_cons hspread
      obtain ⟨inside, behind, rfl, hinside, hbehind⟩ := List.filter_eq_append_iff.1 hmore
      obtain ⟨lines, hlines, hlast⟩ := exists_of_filter_eq_cons hbehind
      rw [hjoin, hopen, List.append_assoc, ih hinside, hlast, hclose, joinLines_spread_nil hlines,
        List.cons_append, List.append_assoc, List.singleton_append]
  | @element primary items whole tilde signs _ htilde hsigns _ _ hwhole ih =>
      have hmark : ∀ item ∈ tilde.toList.map Item.single, ∀ depth, item.depthBehind depth = depth := by
        rintro _ hmem depth
        obtain ⟨token, htoken, rfl⟩ := List.mem_map.1 hmem
        exact Item.depthBehind_of_isSymbol (htilde token (Option.mem_toList.1 htoken)) (by decide)
          (by decide) depth
      have hbehind : ∀ item ∈ signs.map (fun sign => Item.single sign.2), ∀ depth,
          item.depthBehind depth = depth := by
        rintro _ hmem depth
        obtain ⟨sign, hsign, rfl⟩ := List.mem_map.1 hmem
        exact Item.depthBehind_of_isSymbol (hsigns sign hsign) (by cases sign.1 <;> decide)
          (by cases sign.1 <;> decide) depth
      rw [hwhole] at hspread ⊢
      obtain ⟨front, last, rfl, hfront, hlast⟩ := List.filter_eq_append_iff.1 hspread
      obtain ⟨first, middle, rfl, hfirst, hmiddle⟩ := List.filter_eq_append_iff.1 hfront
      rw [List.append_assoc, List.append_assoc, joinLines_spread_of_flat hmark hfirst, ih hmiddle,
        joinLines_spread_of_flat hbehind hlast, List.append_assoc, List.append_assoc]
  | one _ ih => exact ih hspread depth rest
  | more _ _ ihnodes ihnode =>
      obtain ⟨front, last, rfl, hfront, hlast⟩ := List.filter_eq_append_iff.1 hspread
      rw [List.append_assoc, ihnodes hfront, ihnode hlast, List.append_assoc]
  | branch _ ih => exact ih hspread depth rest
  | another _ hbar _ ihbranches ihnodes =>
      obtain ⟨front, last, rfl, hfront, hlast⟩ := List.filter_eq_append_iff.1 hspread
      obtain ⟨more, hmore, hjoin⟩ := exists_of_filter_eq_cons hlast
      rw [List.append_assoc, ihbranches hfront, hjoin,
        Item.depthBehind_of_isSymbol hbar (by decide) (by decide), ihnodes hmore, List.append_assoc,
        List.cons_append]

end Spread

-- ============================================================================
-- Stretches of items
-- ============================================================================

namespace Stretch

theorem items_cons (cursor : Cursor) (stretch : Stretch) (more : List (Cursor × Stretch)) :
    items ((cursor, stretch) :: more) = (stretch.item? cursor).toList ++ items more := by
  rw [items, items, List.filterMap_cons]
  dsimp only
  cases stretch.item? cursor <;> rfl

theorem items_placed_append (cursor : Cursor) (stretches more : List Stretch) :
    items (placed cursor (stretches ++ more)) = items (placed cursor stretches) ++
      items (placed (cursor.afterAll (stretches.flatMap lexemes)) more) := by
  induction stretches generalizing cursor with
  | nil => rfl
  | cons stretch others ih =>
      rw [List.cons_append, placed, placed, items_cons, items_cons, ih, List.flatMap_cons,
        Cursor.afterAll_append, List.append_assoc]

/-- Stretches have the same items wherever they stand. -/
theorem map_forgetPlace_items (stretches : List Stretch) (cursor cursor' : Cursor) :
    (items (placed cursor stretches)).map Item.forgetPlace =
      (items (placed cursor' stretches)).map Item.forgetPlace := by
  induction stretches generalizing cursor cursor' with
  | nil => rfl
  | cons stretch more ih =>
      have hitem : (stretch.item? cursor).map Item.forgetPlace =
          (stretch.item? cursor').map Item.forgetPlace := by
        cases stretch <;> rfl
      rw [placed, placed, items_cons, items_cons, List.map_append, List.map_append,
        ← Option.toList_map, hitem, Option.toList_map,
        ih (cursor.afterAll stretch.lexemes) (cursor'.afterAll stretch.lexemes)]

/-- Whether a stretch has an item that counts wherever it stands. -/
def Counts : Stretch → Prop
  | .word _ | .sign _ | .literal .. => True
  | _ => False

theorem counts_of_item? {stretch : Stretch} {cursor : Cursor} {item : Item}
    (h : stretch.item? cursor = some item) (hline : item.isLine = false) : stretch.Counts := by
  cases stretch with
  | word => trivial
  | sign => trivial
  | literal => trivial
  | lineEnd => cases h; cases hline
  | blanks => cases h
  | comment => cases h
  | continuation => cases h

variable {stretches : List Stretch} {cursor : Cursor} {depth : Nat} {own : List Item}

/-- An item that counts is that of a stretch.  The items before it are those of the
    stretches before it, up to line ends, and the items behind it are those of the others
    that count. -/
theorem exists_of_joinLines_eq {before rest : List Item} {item : Item}
    (h : joinLines depth (items (placed cursor stretches)) = before ++ item :: rest) :
    ∃ front stretch more depth', stretches = front ++ stretch :: more ∧
      stretch.item? (cursor.afterAll (front.flatMap lexemes)) = some item ∧
      (items (placed cursor front)).filter (!·.isLine) = before.filter (!·.isLine) ∧
      joinLines depth' (items (placed
        ((cursor.afterAll (front.flatMap lexemes)).afterAll stretch.lexemes) more)) = rest := by
  induction stretches generalizing cursor depth before with
  | nil => exact absurd h (by simp [placed, items, joinLines])
  | cons first stretches ih =>
      -- What holds of the other stretches holds if the first one has no item in front of `item`.
      have hskip : ∀ {depth' : Nat} {before' : List Item},
          joinLines depth' (items (placed (cursor.afterAll first.lexemes) stretches)) =
            before' ++ item :: rest →
          ((first.item? cursor).toList ++ before').filter (!·.isLine) =
            before.filter (!·.isLine) →
          ∃ front stretch more depth', first :: stretches = front ++ stretch :: more ∧
            stretch.item? (cursor.afterAll (front.flatMap lexemes)) = some item ∧
            (items (placed cursor front)).filter (!·.isLine) = before.filter (!·.isLine) ∧
            joinLines depth' (items (placed
              ((cursor.afterAll (front.flatMap lexemes)).afterAll stretch.lexemes) more)) = rest := by
        intro depth' before' hrest hbefore
        obtain ⟨front, stretch, more, depth', rfl, hitem, hfront, hmore⟩ := ih hrest
        refine ⟨first :: front, stretch, more, depth', rfl, ?_, ?_, ?_⟩
        · rw [List.flatMap_cons, Cursor.afterAll_append]
          exact hitem
        · rw [placed, items_cons, List.filter_append, hfront, ← List.filter_append, hbefore]
        · rw [List.flatMap_cons, Cursor.afterAll_append]
          exact hmore
      rw [placed, items_cons] at h
      cases hfirst : first.item? cursor with
      | none =>
          rw [hfirst] at h hskip
          exact hskip h rfl
      | some found =>
          rw [hfirst] at h hskip
          rw [Option.toList_some, List.singleton_append, joinLines] at h
          split at h
          · next hline =>
            have hline : found.isLine = true := ((Bool.and_eq_true _ _).mp hline).1
            refine hskip h ?_
            rw [Option.toList_some, List.singleton_append, List.filter_cons_of_neg (by simp [hline])]
          · rcases before with _ | ⟨other, before⟩
            · obtain ⟨rfl, hrest⟩ := List.cons.inj h
              exact ⟨[], first, stretches, _, rfl, hfirst, rfl, hrest⟩
            · obtain ⟨rfl, hrest⟩ := List.cons.inj h
              exact hskip hrest rfl

/-- Items in a row among those that count, none of them a line end, are the items of
    stretches in a row, up to line ends.  The stretches begin where the first item does, and
    end with the last one. -/
theorem exists_of_infix (hne : own ≠ []) (hlines : ∀ item ∈ own, item.isLine = false)
    (h : own <:+: joinLines depth (items (placed cursor stretches))) :
    ∃ front taken behind, stretches = front ++ taken ++ behind ∧
      (items (placed (cursor.afterAll (front.flatMap lexemes)) taken)).filter (!·.isLine) = own ∧
      (∃ first ∈ taken.head?, first.Counts) ∧ (∃ last ∈ taken.getLast?, last.Counts) ∧
      spanOf own = ⟨(cursor.afterAll (front.flatMap lexemes)).offset,
        (cursor.afterAll ((front ++ taken).flatMap lexemes)).offset⟩ := by
  obtain ⟨before, after, hwhole⟩ := h
  obtain ⟨item, more, rfl⟩ := List.exists_cons_of_ne_nil hne
  obtain ⟨hitemLine, hmoreLines⟩ := List.forall_mem_cons.1 hlines
  rw [List.append_assoc, List.cons_append] at hwhole
  obtain ⟨front, first, rest, depth', rfl, hfirst, -, hrest⟩ := exists_of_joinLines_eq hwhole.symm
  have hcounts := counts_of_item? hfirst hitemLine
  have hspan := span_of_item? hfirst
  rcases List.eq_nil_or_concat' more with rfl | ⟨middle, last, rfl⟩
  · refine ⟨front, [first], rest, by simp, ?_, ⟨first, rfl, hcounts⟩, ⟨first, rfl, hcounts⟩, ?_⟩
    · simp [placed, items, hfirst, hitemLine]
    · rw [List.flatMap_append, Cursor.afterAll_append, List.flatMap_singleton]
      simp [spanOf, hspan]
  · have hlastLine : last.isLine = false := hmoreLines last (by simp)
    rw [List.append_assoc, List.singleton_append] at hrest
    obtain ⟨inside, final, behind, _, rfl, hfinal, hinside, -⟩ := exists_of_joinLines_eq hrest
    have hmiddle : middle.filter (!·.isLine) = middle := by
      refine List.filter_eq_self.2 fun item hitem => ?_
      rw [hmoreLines item (List.mem_append_left _ hitem)]
      rfl
    have hfinalSpan := span_of_item? hfinal
    rw [hmiddle] at hinside
    refine ⟨front, first :: (inside ++ [final]), behind, by simp, ?_, ⟨first, rfl, hcounts⟩,
      ⟨final, ?_, counts_of_item? hfinal hlastLine⟩, ?_⟩
    · rw [placed, items_cons, hfirst, items_placed_append, List.filter_append, List.filter_append,
        hinside]
      simp [placed, items, hfinal, hitemLine, hlastLine]
    · rw [← List.cons_append, List.getLast?_concat]
      rfl
    · have hoffset : cursor.afterAll ((front ++ first :: (inside ++ [final])).flatMap lexemes) =
          (((cursor.afterAll (front.flatMap lexemes)).afterAll first.lexemes).afterAll
            (inside.flatMap lexemes)).afterAll final.lexemes := by
        simp [Cursor.afterAll_append]
      have hlast : (spanOf ((item :: middle) ++ [last])).stop = last.span.stop :=
        stop_spanOf_concat (item :: middle) last
      have hstart : (spanOf ((item :: middle) ++ [last])).start = item.span.start := rfl
      rw [hspan] at hstart
      rw [hfinalSpan] at hlast
      rw [hoffset, ← List.cons_append]
      exact congrArg₂ Span.mk hstart hlast

-- ============================================================================
-- Between brackets
-- ============================================================================

/-- Some stretches between brackets, as all of a rule that is called `X`. -/
def bracketed (stretches : List Stretch) : List Stretch :=
  [.word "X", .blanks [' '], .sign ":=", .blanks [' '], .sign "[", .blanks [' ']] ++
    (stretches ++ [.blanks [' '], .sign "]"])

theorem chars_bracketed (stretches : List Stretch) :
    (bracketed stretches).flatMap chars =
      "X := [ ".toList ++ stretches.flatMap chars ++ " ]".toList := by
  simp [bracketed, chars]

/-- A stretch with an item does not begin with a blank. -/
theorem isBlank_of_mem_head? {stretch : Stretch} (hsound : stretch.Sound)
    (hcounts : stretch.Counts) : ∀ c ∈ stretch.chars.head?, isBlank c = false := by
  intro c hc
  cases stretch with
  | word text => exact isBlank_eq_false_of_isWord (hsound.2 c (List.mem_of_mem_head? hc))
  | sign text =>
      have hsigns : Grammar.signs.all (·.toList.head?.all (!isBlank ·)) = true := by decide
      have hsign := List.all_eq_true.1 hsigns text hsound
      rw [show text.toList.head? = some c from hc] at hsign
      simpa using hsign
  | literal quote held =>
      obtain rfl := Option.some.inj hc
      have hquotes : literalQuotes.all (!isBlank ·) = true := by decide
      simpa using List.all_eq_true.1 hquotes quote hsound.1
  | blanks => cases hcounts
  | comment => cases hcounts
  | lineEnd => cases hcounts
  | continuation => cases hcounts

theorem endsBefore_blank {stretch : Stretch} (hcounts : stretch.Counts) (rest : List Char) :
    stretch.EndsBefore (' ' :: rest) := by
  cases stretch with
  | word =>
      rintro _ ⟨⟩
      decide
  | sign => trivial
  | literal => trivial
  | blanks => cases hcounts
  | comment => cases hcounts
  | lineEnd => cases hcounts
  | continuation => cases hcounts

/-- Between brackets stretches of items in a row are read one by one. -/
theorem row_bracketed {rest : List Char} (hrow : Row stretches rest)
    (hfirst : ∃ first ∈ stretches.head?, first.Counts)
    (hlast : ∃ last ∈ stretches.getLast?, last.Counts) : Row (bracketed stretches) [] := by
  obtain ⟨first, hfirst, hfirstCounts⟩ := hfirst
  obtain ⟨last, hlast, hlastCounts⟩ := hlast
  obtain ⟨others, rfl⟩ := List.getLast?_eq_some_iff.1 hlast
  have hfirstSound := hrow.sound first (List.mem_of_mem_head? hfirst)
  have hinside : Row (others ++ [last]) " ]".toList :=
    hrow.before (endsBefore_blank hlastCounts [']'])
  have hclosing : Row [.blanks [' '], .sign "]"] [] := by
    refine ⟨sound_blank, ?_, show "]" ∈ Grammar.signs by decide, trivial, trivial⟩
    rintro _ ⟨⟩
    decide
  have hopening : Row [.word "X", .blanks [' '], .sign ":=", .blanks [' '], .sign "[", .blanks [' ']]
      ((others ++ [last] ++ [blanks [' '], sign "]"]).flatMap chars) := by
    refine ⟨⟨by decide, List.all_eq_true.1 (by decide)⟩, ?_, sound_blank, ?_,
      show ":=" ∈ Grammar.signs by decide, trivial, sound_blank, ?_,
      show "[" ∈ Grammar.signs by decide, trivial, sound_blank, ?_, trivial⟩
    · rintro _ ⟨⟩
      decide
    · rintro _ ⟨⟩
      decide
    · rintro _ ⟨⟩
      decide
    · intro c hc
      have hhead : c ∈ first.chars.head? := by
        have hchars : first.chars ≠ [] := hfirstSound.chars_ne_nil
        obtain ⟨more, hmore⟩ := List.head?_eq_some_iff.1 hfirst
        rw [hmore, List.cons_append, List.flatMap_cons, List.flatMap_nil, List.nil_append,
          List.head?_append_of_ne_nil _ hchars] at hc
        exact hc
      exact ⟨isBlank_of_mem_head? hfirstSound hfirstCounts c hhead,
        fun hreturn => absurd hreturn (by decide)⟩
  rw [bracketed, row_append_iff, row_append_iff, List.append_nil]
  exact ⟨hopening, hinside, hclosing⟩

end Stretch

theorem Item.map_forgetPlace_filter (items : List Item) :
    (items.filter (!·.isLine)).map Item.forgetPlace =
      (items.map Item.forgetPlace).filter (!·.isLine) := by
  have hsame : ((!·.isLine) ∘ Item.forgetPlace) = fun item : Item => !item.isLine := by
    funext item
    cases item <;> rfl
  rw [List.filter_map, hsame]

namespace Grammar

/-- The stretches of the items of an element, between brackets, are a grammar of one rule,
    with the element in an alternation of one branch. -/
theorem compile_bracketed {node : Node} {own : List Item} (hderives : Derives (.element node) own)
    {stretches : List Stretch} {cursor : Cursor}
    (hown : (Stretch.items (Stretch.placed cursor stretches)).filter (!·.isLine) = own)
    (hrow : Stretch.Row (Stretch.bracketed stretches) []) {text : String}
    (hchars : text.toList = (Stretch.bracketed stretches).flatMap Stretch.chars) :
    ∃ (again : Node) (span whole : Span) (h : _), again.forgetSpans = node.forgetSpans ∧
      compile text = .ok (.ofRules
        ⟨[⟨"X", [.alternation .plain span [[again]] false], whole⟩], h⟩) := by
  obtain ⟨place, name, define, opening, closing, hitems, hname, htext, hdefine, hopening,
      hclosing⟩ : ∃ place name define opening closing,
        Stretch.items (Stretch.placed .beginning (Stretch.bracketed stretches)) =
          .single name :: .single define :: .single opening ::
            (Stretch.items (Stretch.placed place stretches) ++ [.single closing]) ∧
        name.cls = .identifier ∧ name.text = "X" ∧ define.isSymbol ":=" = true ∧
        opening.isSymbol "[" = true ∧ closing.isSymbol "]" = true := by
    rw [Stretch.bracketed, Stretch.items_placed_append, Stretch.items_placed_append]
    exact ⟨_, _, _, _, _, rfl, rfl, rfl, rfl, rfl, rfl⟩
  -- The same items at other places derive the element at another place.
  let inside := Stretch.items (Stretch.placed place stretches)
  have hsame : (inside.filter (!·.isLine)).map Item.forgetPlace = own.map Item.forgetPlace := by
    rw [← hown, Item.map_forgetPlace_filter, Item.map_forgetPlace_filter,
      Stretch.map_forgetPlace_items]
  obtain ⟨again, hagain, hforget⟩ := hderives.isDerivedElsewhere hsame
  have hprimary := Derives.alternation hopening hclosing (.branch (.one hagain))
  have hrule := IsRule.intro hname (by rw [htext]; decide) hdefine (.one hprimary.plainElement) rfl
  have hdone : IsFile [.single (sourceLexer.tokenize text).ending] [] := .done rfl
  have hfile := IsFile.rule hrule (.inr rfl) hdone
  -- The line ends between them stand within brackets.
  have hopen : (Item.single opening).depthBehind 0 = 1 := by rw [Item.depthBehind, if_pos hopening]
  have hsource : sourceItems text = .single name :: .single define :: .single opening ::
      (inside.filter (!·.isLine) ++ [.single closing, .single (sourceLexer.tokenize text).ending]) := by
    have hclose : joinLines 1 [.single closing, .single (sourceLexer.tokenize text).ending] =
        [.single closing, .single (sourceLexer.tokenize text).ending] := by
      rw [joinLines_single (by rw [(Token.isSymbol_iff.1 hclosing).1]; decide)]
      exact congrArg _ (joinLines_single_of_cls (show TokenClass.ending ≠ .symbol by decide)
        (show TokenClass.ending ≠ .line by decide) _ [])
    rw [sourceItems_of_row hrow hchars, hitems, List.cons_append,
      joinLines_single_of_cls (by rw [hname]; decide) (by rw [hname]; decide), List.cons_append,
      joinLines_single_of_isSymbol hdefine (by decide) (by decide), List.cons_append,
      joinLines_single (by rw [(Token.isSymbol_iff.1 hopening).1]; decide), hopen,
      List.append_assoc, List.singleton_append, hagain.joinLines_spread rfl 0, hclose]
  have hsourceFile := hfile
  rw [List.cons_append, List.cons_append, List.cons_append, List.append_assoc,
    List.singleton_append, ← hsource, htext] at hsourceFile
  exact ⟨again, _, _, List.nodup_singleton _, hforget, compile_eq_ok.2 ⟨_, hsourceFile, rfl⟩⟩

end Grammar

-- ============================================================================
-- Elements and the source
-- ============================================================================

/-- No item of a phrase is a line end. -/
theorem Derives.isLine_eq_false {phrase : Phrase} {items : List Item} (h : Derives phrase items) :
    ∀ item ∈ items, item.isLine = false := by
  have hsingle : ∀ {token : Token}, token.cls ≠ .line → (Item.single token).isLine = false :=
    fun hne => beq_eq_false_iff_ne.2 hne
  have hsign : ∀ {token : Token} {text : String}, token.isSymbol text = true →
      (Item.single token).isLine = false := fun hsymbol =>
    hsingle (by rw [(Token.isSymbol_iff.1 hsymbol).1]; decide)
  induction h with
  | literal => exact List.forall_mem_singleton.2 rfl
  | category hcls => exact List.forall_mem_singleton.2 (hsingle (by rw [hcls]; decide))
  | reference hcls => exact List.forall_mem_singleton.2 (hsingle (by rw [hcls]; decide))
  | alternation hopening hclosing _ ih =>
      exact List.forall_mem_cons.2 ⟨hsign hopening,
        List.forall_mem_append.2 ⟨ih, List.forall_mem_singleton.2 (hsign hclosing)⟩⟩
  | element _ htilde hsigns _ _ hwhole ih =>
      rw [hwhole]
      refine List.forall_mem_append.2 ⟨List.forall_mem_append.2 ⟨?_, ih⟩, ?_⟩
      · rintro _ hmem
        obtain ⟨token, htoken, rfl⟩ := List.mem_map.1 hmem
        exact hsign (htilde token (Option.mem_toList.1 htoken))
      · rintro _ hmem
        obtain ⟨sign, hbehind, rfl⟩ := List.mem_map.1 hmem
        exact hsign (hsigns sign hbehind)
  | one _ ih => exact ih
  | more _ _ ihnodes ihnode => exact List.forall_mem_append.2 ⟨ihnodes, ihnode⟩
  | branch _ ih => exact ih
  | another _ hbar _ ihbranches ihnodes =>
      exact List.forall_mem_append.2 ⟨ihbranches, List.forall_mem_cons.2 ⟨hsign hbar, ihnodes⟩⟩

theorem Stretch.offset_afterAll_flatMap (stretches : List Stretch) :
    (Cursor.beginning.afterAll (stretches.flatMap lexemes)).offset =
      byteLength (stretches.flatMap chars) := by
  have htexts : (stretches.flatMap lexemes).flatMap Lexeme.text = stretches.flatMap chars := by
    rw [List.flatMap_assoc]
    exact List.flatMap_congr fun stretch _ => flatMap_text_lexemes stretch
  rw [Cursor.offset_afterAll, htexts]
  exact Nat.zero_add _

namespace Grammar

/-- The elements of a grammar are where they say.  Those next to each other, in a rule or
    in brackets, stand one behind the other, none of them empty, within the span of the rule
    or of the brackets.  And the piece of the source that an element spans, however deep it
    is nested, is read as that element by itself: between the brackets of a rule of its own
    it is one branch of one element, the same but for its place. -/
theorem elements_are_read_from_their_spans {source : String} {grammar : Grammar}
    (h : compile source = .ok grammar) :
    ∀ rule ∈ grammar.rules.rules,
      rule.span.Encloses (rule.nodes.map Node.span) ∧
      ∀ node, Node.StandsIn node rule.nodes →
        node.span.Encloses (node.children.map Node.span) ∧
        ∃ before piece after : String, source = before ++ piece ++ after ∧
          node.span = ⟨before.utf8ByteSize, (before ++ piece).utf8ByteSize⟩ ∧
          ∃ (again : Node) (span whole : Span) (hnodup : _),
            again.forgetSpans = node.forgetSpans ∧
            compile ("X := [ " ++ piece ++ " ]") = .ok (.ofRules
              ⟨[⟨"X", [.alternation .plain span [[again]] false], whole⟩], hnodup⟩) := by
  obtain ⟨table, hfile, rfl⟩ := compile_eq_ok.1 h
  obtain ⟨stretches, hrow, hchars⟩ := exists_stretches h
  have hitems := sourceItems_of_row hrow hchars
  have hending : (sourceLexer.tokenize source).ending.cls = .ending := rfl
  rw [joinLines_concat hending] at hitems
  have hfits := (Stretch.fits_items hrow.sound .beginning).sublist
    ((joinLines_sublist 0 _).map Item.span)
  intro rule hrule
  obtain ⟨whole, hwhole, hisRule⟩ := hfile.exists_items hrule
  rw [hitems, List.dropLast_concat] at hwhole
  cases hisRule with
  | @intro name define nodes body _ _ _ _ hbody heq =>
    have hne : whole ≠ [] := by
      rw [heq]
      exact List.cons_ne_nil _ _
    have hbodyOf : body <:+: whole := by
      rw [heq]
      exact ((List.suffix_cons _ _).trans (List.suffix_cons _ _)).isInfix
    have hwholeFits := hfits.sublist (hwhole.sublist.map Item.span)
    have hspan := (hwholeFits.spanOf hne).2
    refine ⟨(hbody.fits (hspan.sublist (hbodyOf.sublist.map Item.span))).encloses, fun node hnode => ?_⟩
    obtain ⟨own, hown, hderives⟩ := hbody.exists_items hnode
    have hownOf := hown.trans (hbodyOf.trans hwhole)
    obtain ⟨hnodeSpan, hchildren⟩ :=
      hderives.element_fits (hfits.sublist (hownOf.sublist.map Item.span))
    obtain ⟨front, taken, behind, rfl, htaken, hfirst, hlast, hoffsets⟩ :=
      Stretch.exists_of_infix hderives.items_ne_nil hderives.isLine_eq_false hownOf
    have htakenRow := (Stretch.row_append_iff.1 (Stretch.row_append_iff.1 hrow).1).2
    refine ⟨hchildren.encloses, String.ofList (front.flatMap Stretch.chars),
      String.ofList (taken.flatMap Stretch.chars), String.ofList (behind.flatMap Stretch.chars),
      ?_, ?_, compile_bracketed hderives htaken (Stretch.row_bracketed htakenRow hfirst hlast) ?_⟩
    · apply String.toList_inj.1
      rw [hchars]
      simp
    · rw [hnodeSpan, hoffsets, Stretch.offset_afterAll_flatMap, Stretch.offset_afterAll_flatMap,
        ← byteLength_toList, ← byteLength_toList]
      simp
    · rw [Stretch.chars_bracketed]
      simp

/-- The rules of a grammar with an alternation over three lines. -/
def spreadAlternation : RuleTable :=
  ⟨[⟨"ROOT", [.alternation ⟨false, false, true, false⟩ ⟨8, 31⟩
      [[.ref .plain ⟨10, 11⟩ "x"],
        [.terminal ⟨true, true, false, false⟩ ⟨19, 25⟩ (.literal "é")]] false,
      .ref .plain ⟨32, 33⟩ "z"], ⟨0, 33⟩⟩], by decide⟩

/-- A comment and two line ends stand inside of the alternation, the second of them between
    its brackets and its suffix; a literal in it takes up more bytes than characters. -/
theorem spread_alternation_is_read_again :
    ∃ grammar, compile "ROOT := [ x # y\n | ~'é'? ] \\\n* z" = .ok grammar ∧
      ∃ node, (∃ rule ∈ grammar.rules.rules, Node.StandsIn node rule.nodes) ∧
        node.span = ⟨8, 31⟩ ∧
        ∃ before piece after : String,
          "ROOT := [ x # y\n | ~'é'? ] \\\n* z" = before ++ piece ++ after ∧
          before.utf8ByteSize = 8 ∧ (before ++ piece).utf8ByteSize = 31 ∧
          ∃ (again : Node) (span whole : Span) (hnodup : _),
            again.forgetSpans = node.forgetSpans ∧
            compile ("X := [ " ++ piece ++ " ]") = .ok (.ofRules
              ⟨[⟨"X", [.alternation .plain span [[again]] false], whole⟩], hnodup⟩) := by
  have hcompile : compile "ROOT := [ x # y\n | ~'é'? ] \\\n* z" =
      .ok (ofRules spreadAlternation) := by decide +kernel
  have hrule : _ ∈ (ofRules spreadAlternation).rules.rules := List.mem_singleton.2 rfl
  obtain ⟨-, hnodes⟩ := elements_are_read_from_their_spans hcompile _ hrule
  obtain ⟨-, before, piece, after, hsource, hspan, hagain⟩ := hnodes _ (.here List.mem_cons_self)
  obtain ⟨hstart, hstop⟩ := Span.mk.inj hspan
  exact ⟨_, hcompile, _, ⟨_, hrule, .here List.mem_cons_self⟩, rfl, before, piece, after, hsource,
    hstart.symm, hstop.symm, hagain⟩

end Grammar

end TokenGrammar
