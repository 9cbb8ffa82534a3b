import Mathlib.Data.List.Basic
import UpgradeSafety.Syntax.Documentation

/-!
# Annotations, block by block

A line feed between two texts ends the last line of the first one, or is an empty line when the
first one has ended it already (`lines_append_newline`). Reading the lines of a documentation
starts afresh at every line that starts a tag (`argumentsFrom_append`), and blank lines add
nothing.

A block begins with a line that starts a tag and goes on to the next such line. The reader carries
along whether the lines before belong to a block of the tag in question. Two facts make it local: a
line that starts a tag sets this anew, whatever it was, and lines in front of the first tag say
nothing. What is said of blocks is then an induction over the list of blocks.

* `tagArguments_local`: what a documentation says under a tag is what its blocks say under it, one
  after the other; blocks without the tag may be added, removed and moved.
-/

namespace UpgradeSafety

/-! ## Lines -/

namespace Text

/-- The lines of characters. -/
def linesFrom (current cs : List Char) : List (List Char) := (splitLinesFrom current cs).map (·.1)

theorem linesFrom_nil (current : List Char) :
    linesFrom current [] = if current.isEmpty then [] else [current.reverse] := by
  rw [linesFrom, splitLinesFrom]
  split <;> rfl

theorem linesFrom_pair (current cs : List Char) :
    linesFrom current ('\r' :: '\n' :: cs) = current.reverse :: linesFrom [] cs := by
  rw [linesFrom, splitLinesFrom]
  rfl

theorem linesFrom_cons {c : Char} {cs : List Char} (current : List Char)
    (h : ∀ rest, c = '\r' → cs ≠ '\n' :: rest) : linesFrom current (c :: cs) =
      if isLineBreak c then current.reverse :: linesFrom [] cs else linesFrom (c :: current) cs := by
  rw [linesFrom, splitLinesFrom]
  · split <;> rfl
  · exact fun rest hc hcs => h rest hc hcs

theorem linesFrom_newline (current cs : List Char) :
    linesFrom current ('\n' :: cs) = current.reverse :: linesFrom [] cs := by
  rw [linesFrom_cons current (by simp), if_pos (by decide)]

/-- A line feed behind characters ends their last line, unless it is ended already. -/
theorem linesFrom_append_newline (current cs cs' : List Char) :
    ∃ blank, (∀ line ∈ blank, line = []) ∧
      linesFrom current (cs ++ '\n' :: cs') = linesFrom current cs ++ blank ++ linesFrom [] cs' := by
  fun_induction splitLinesFrom current cs with
  | case1 current hcurrent =>
    refine ⟨[[]], by simp, ?_⟩
    rw [List.nil_append, linesFrom_newline, linesFrom_nil, if_pos hcurrent, List.isEmpty_iff.mp hcurrent]
    rfl
  | case2 current hcurrent =>
    refine ⟨[], nofun, ?_⟩
    rw [List.nil_append, linesFrom_newline, linesFrom_nil, if_neg hcurrent]
    rfl
  | case3 current cs ih =>
    obtain ⟨blank, hblank, hlines⟩ := ih
    refine ⟨blank, hblank, ?_⟩
    rw [List.cons_append, List.cons_append, linesFrom_pair, linesFrom_pair, hlines]
    rfl
  | case4 current c cs hpair hbreak ih =>
    have hpair' : ∀ rest, c = '\r' → cs ≠ '\n' :: rest := fun rest hc hcs => hpair rest hc hcs
    rw [linesFrom_cons current hpair', if_pos hbreak]
    -- A carriage return at the end of the first text makes one break with the line feed.
    by_cases hreturn : c = '\r' ∧ cs = []
    · obtain ⟨rfl, rfl⟩ := hreturn
      refine ⟨[], nofun, ?_⟩
      rw [List.cons_append, List.nil_append, linesFrom_pair, linesFrom_nil]
      rfl
    · obtain ⟨blank, hblank, hlines⟩ := ih
      refine ⟨blank, hblank, ?_⟩
      rw [List.cons_append, linesFrom_cons current, if_pos hbreak, hlines]
      · rfl
      · intro rest hc hcs
        cases cs with
        | nil => exact hreturn ⟨hc, rfl⟩
        | cons d ds =>
          rw [List.cons_append, List.cons.injEq] at hcs
          exact hpair' ds hc (by rw [hcs.1])
  | case5 current c cs hpair hbreak ih =>
    have hplain : ∀ {cs' rest : List Char}, c = '\r' → cs' ≠ '\n' :: rest := by
      rintro _ _ rfl
      exact absurd (by decide) hbreak
    obtain ⟨blank, hblank, hlines⟩ := ih
    refine ⟨blank, hblank, ?_⟩
    rw [List.cons_append, linesFrom_cons current fun _ => hplain, linesFrom_cons current fun _ => hplain,
      if_neg hbreak, if_neg hbreak, hlines]

theorem lines_eq (s : String) : lines s = (linesFrom [] s.toList).map String.ofList := by
  rw [lines, splitLines, linesFrom, List.map_map, List.map_map]
  rfl

/-- The lines of two texts with a line feed between them. -/
theorem lines_append_newline (s s' : String) : ∃ blank, (∀ line ∈ blank, line = "") ∧
    lines (s ++ "\n" ++ s') = lines s ++ blank ++ lines s' := by
  obtain ⟨blank, hblank, hlines⟩ := linesFrom_append_newline [] s.toList s'.toList
  refine ⟨blank.map String.ofList, ?_, ?_⟩
  · intro line hline
    obtain ⟨cs, hcs, rfl⟩ := List.mem_map.mp hline
    rw [hblank cs hcs]
  · have htext : (s ++ "\n" ++ s').toList = s.toList ++ '\n' :: s'.toList := by simp
    rw [lines_eq, lines_eq, lines_eq, htext, hlines, List.map_append, List.map_append]

end Text

namespace Syntax

/-! ## Lines of a documentation -/

/-- Whether a line starts a tag. -/
def isTagLine (line : String) : Bool := (TagLine.read? line.toList).isSome

/-- Whether a line starts the custom tag of a name. -/
def isTagOf (name line : String) : Bool :=
  ((TagLine.read? line.toList).map (·.isCustom name)).getD false

variable {name : String} {inside : Bool} {ls ls' : List String}

theorem isTagLine_eq_false_iff {line : String} :
    isTagLine line = false ↔ TagLine.read? line.toList = none := by
  rw [isTagLine, Option.isSome_eq_false_iff, Option.isNone_iff_eq_none]

theorem hasTag_eq (doc name : String) : hasTag doc name = (Text.lines doc).any (isTagOf name) := rfl

/-- A line that starts a tag is read alike whatever stands before it. -/
theorem argumentsFrom_append (h : ∀ line ∈ ls'.head?, isTagLine line = true) :
    argumentsFrom name inside (ls ++ ls') =
      argumentsFrom name inside ls ++ argumentsFrom name false ls' := by
  induction ls generalizing inside with
  | nil =>
    cases ls' with
    | nil => rfl
    | cons line rest =>
      obtain ⟨t, ht⟩ := Option.isSome_iff_exists.mp (h line rfl)
      rw [List.nil_append, argumentsFrom, argumentsFrom, argumentsFrom, ht]
      rfl
  | cons line ls ih =>
    rw [List.cons_append, argumentsFrom, argumentsFrom]
    cases TagLine.read? line.toList with
    | some t =>
      dsimp only
      rw [ih, List.append_assoc]
    | none =>
      dsimp only
      rw [ih, List.append_assoc]

/-- Lines that start no tag continue the tag before them with all their words. -/
theorem argumentsFrom_of_untagged (h : ∀ line ∈ ls, isTagLine line = false) :
    argumentsFrom name inside ls = if inside then ls.flatMap Text.words else [] := by
  induction ls with
  | nil => rw [argumentsFrom, List.flatMap_nil, ite_self]
  | cons line ls ih =>
    obtain ⟨hline, hrest⟩ := List.forall_mem_cons.mp h
    rw [argumentsFrom, isTagLine_eq_false_iff.mp hline]
    dsimp only
    rw [ih hrest]
    cases inside with
    | true => rfl
    | false => rfl

theorem untagged_of_blank (h : ∀ line ∈ ls, line = "") : ∀ line ∈ ls, isTagLine line = false := by
  intro line hline
  rw [h line hline]
  rfl

theorem argumentsFrom_of_blank (h : ∀ line ∈ ls, line = "") : argumentsFrom name inside ls = [] := by
  have hwords : ls.flatMap Text.words = [] := by
    refine List.flatMap_eq_nil_iff.mpr fun line hline => ?_
    rw [h line hline]
    rfl
  rw [argumentsFrom_of_untagged (untagged_of_blank h), hwords, ite_self]

/-- Blank lines at the end add nothing. -/
theorem argumentsFrom_append_blank (h : ∀ line ∈ ls', line = "") :
    argumentsFrom name inside (ls ++ ls') = argumentsFrom name inside ls := by
  induction ls generalizing inside with
  | nil => exact argumentsFrom_of_blank h
  | cons line ls ih =>
    rw [List.cons_append, argumentsFrom, argumentsFrom]
    cases TagLine.read? line.toList with
    | some t =>
      dsimp only
      rw [ih]
    | none =>
      dsimp only
      rw [ih]

/-- Lines that start no tag, with no tag before them, add nothing. -/
theorem argumentsFrom_behind (h : ∀ line ∈ ls, isTagLine line = false) :
    argumentsFrom name false (ls ++ ls') = argumentsFrom name false ls' := by
  induction ls with
  | nil => rfl
  | cons line ls ih =>
    obtain ⟨hline, hrest⟩ := List.forall_mem_cons.mp h
    rw [List.cons_append, argumentsFrom, isTagLine_eq_false_iff.mp hline]
    exact ih hrest

/-- Without the tag of a name there are no arguments of it. -/
theorem argumentsFrom_eq_nil (h : ∀ line ∈ ls, isTagOf name line = false) :
    argumentsFrom name false ls = [] := by
  induction ls with
  | nil => rfl
  | cons line ls ih =>
    obtain ⟨hline, hrest⟩ := List.forall_mem_cons.mp h
    rw [argumentsFrom]
    cases hread : TagLine.read? line.toList with
    | some t =>
      rw [isTagOf, hread] at hline
      have hother : t.isCustom name = false := hline
      dsimp only
      rw [hother, ih hrest]
      rfl
    | none => exact ih hrest

theorem isTagLine_of_isTagOf {line : String} (h : isTagOf name line = true) : isTagLine line = true := by
  unfold isTagOf at h
  unfold isTagLine
  cases hread : TagLine.read? line.toList with
  | some t => rfl
  | none =>
    rw [hread] at h
    cases h

theorem any_isTagOf_of_untagged (h : ∀ line ∈ ls, isTagLine line = false) :
    ls.any (isTagOf name) = false := by
  refine List.any_eq_false.mpr fun line hline htag => ?_
  have hline := h line hline
  rw [isTagLine_of_isTagOf htag] at hline
  cases hline

/-! ## Blocks -/

/-- The first line of a text starts a tag. -/
def StartsTag (doc : String) : Prop := ∃ line ∈ (Text.lines doc).head?, isTagLine line = true

instance (doc : String) : Decidable (StartsTag doc) :=
  inferInstanceAs (Decidable (∃ line ∈ (Text.lines doc).head?, isTagLine line = true))

variable {doc doc' : String} {parts parts' : List String}

theorem StartsTag.head (h : StartsTag doc) : ∀ line ∈ (Text.lines doc).head?, isTagLine line = true := by
  obtain ⟨first, hfirst, htag⟩ := h
  intro line hline
  obtain rfl := Option.mem_unique hline hfirst
  exact htag

/-- One block: the arguments on its first line, and all words of the lines behind it. -/
theorem tagArguments_block {line : String} {t : TagLine} (hlines : Text.lines doc = line :: ls)
    (hread : TagLine.read? line.toList = some t) (h : ∀ line ∈ ls, isTagLine line = false) :
    tagArguments doc name = if t.isCustom name then t.arguments ++ ls.flatMap Text.words else [] := by
  rw [tagArguments, hlines, argumentsFrom, hread]
  dsimp only
  rw [argumentsFrom_of_untagged h]
  cases t.isCustom name with
  | true => rfl
  | false => rfl

theorem hasTag_block {line : String} {t : TagLine} (hlines : Text.lines doc = line :: ls)
    (hread : TagLine.read? line.toList = some t) (h : ∀ line ∈ ls, isTagLine line = false) :
    hasTag doc name = t.isCustom name := by
  rw [hasTag_eq, hlines, List.any_cons, any_isTagOf_of_untagged h, Bool.or_false, isTagOf, hread]
  rfl

theorem tagArguments_append (name : String) (doc : String) (h : StartsTag doc') :
    tagArguments (doc ++ "\n" ++ doc') name = tagArguments doc name ++ tagArguments doc' name := by
  obtain ⟨blank, hblank, hlines⟩ := Text.lines_append_newline doc doc'
  rw [tagArguments, hlines, argumentsFrom_append h.head, argumentsFrom_append_blank hblank]
  rfl

theorem hasTag_append (name doc doc' : String) :
    hasTag (doc ++ "\n" ++ doc') name = (hasTag doc name || hasTag doc' name) := by
  obtain ⟨blank, hblank, hlines⟩ := Text.lines_append_newline doc doc'
  rw [hasTag_eq, hlines, List.any_append, List.any_append,
    any_isTagOf_of_untagged (untagged_of_blank hblank), Bool.or_false]
  rfl

theorem tagArguments_eq_nil (h : hasTag doc name = false) : tagArguments doc name = [] := by
  refine argumentsFrom_eq_nil fun line hline => ?_
  rw [hasTag_eq, List.any_eq_false] at h
  exact Bool.eq_false_iff.mpr (h line hline)

/-- A block with more text behind it is a block. -/
theorem StartsTag.append (h : StartsTag doc) (doc' : String) : StartsTag (doc ++ "\n" ++ doc') := by
  obtain ⟨line, hline, htag⟩ := h
  obtain ⟨blank, -, hlines⟩ := Text.lines_append_newline doc doc'
  refine ⟨line, ?_, htag⟩
  rw [hlines, List.append_assoc, List.head?_append, Option.mem_def.mp hline]
  rfl

theorem StartsTag.intercalate (hne : parts ≠ []) (h : ∀ part ∈ parts, StartsTag part) :
    StartsTag ("\n".intercalate parts) := by
  cases parts with
  | nil => exact absurd rfl hne
  | cons part parts =>
    have hpart := h part List.mem_cons_self
    by_cases hlast : parts = []
    · rwa [hlast, String.intercalate_singleton]
    · rw [String.intercalate_cons_of_ne_nil hlast]
      exact hpart.append _

/-- The parts of a text are blocks: each of them, except the first, starts with a tag. -/
def AreBlocks (parts : List String) : Prop := ∀ part ∈ parts.tail, StartsTag part

/-- The arguments of a text are those of its blocks, in order. -/
theorem tagArguments_intercalate (name : String) (h : AreBlocks parts) :
    tagArguments ("\n".intercalate parts) name = parts.flatMap fun part => tagArguments part name := by
  induction parts with
  | nil => rfl
  | cons part parts ih =>
    rw [List.flatMap_cons]
    by_cases hlast : parts = []
    · rw [hlast, String.intercalate_singleton, List.flatMap_nil, List.append_nil]
    · have hrest : AreBlocks parts := fun other hother => h other (List.mem_of_mem_tail hother)
      rw [String.intercalate_cons_of_ne_nil hlast, tagArguments_append name part (.intercalate hlast h),
        ih hrest]

/-- Blocks without the tag of a name do not matter to its arguments. -/
theorem flatMap_tagArguments (name : String) (parts : List String) :
    (parts.flatMap fun part => tagArguments part name) =
      (parts.filter fun part => hasTag part name).flatMap fun part => tagArguments part name := by
  induction parts with
  | nil => rfl
  | cons part parts ih =>
    rw [List.flatMap_cons, List.filter_cons, ih]
    cases htag : hasTag part name with
    | true => rfl
    | false => rw [tagArguments_eq_nil htag]; rfl

/-- What a text says under a tag is said block by block. A text behind which a block begins keeps its
arguments, and the block adds its own; text before the first tag says nothing; a block of the tag says what
stands behind the tag and on the lines below it, and other blocks say nothing; what has arguments has the tag.
So two texts whose blocks with the tag are the same, in the same order, have the same arguments. -/
theorem tagArguments_local (name : String) :
    (∀ doc doc', StartsTag doc' →
      tagArguments (doc ++ "\n" ++ doc') name = tagArguments doc name ++ tagArguments doc' name ∧
      hasTag (doc ++ "\n" ++ doc') name = (hasTag doc name || hasTag doc' name)) ∧
    (∀ doc doc' before, Text.lines doc = before ++ Text.lines doc' →
      (∀ line ∈ before, isTagLine line = false) →
      tagArguments doc name = tagArguments doc' name ∧ hasTag doc name = hasTag doc' name) ∧
    (∀ doc line rest t, Text.lines doc = line :: rest → TagLine.read? line.toList = some t →
      (∀ line ∈ rest, isTagLine line = false) →
      tagArguments doc name = (if t.isCustom name then t.arguments ++ rest.flatMap Text.words else []) ∧
      hasTag doc name = t.isCustom name) ∧
    (∀ doc, tagArguments doc name ≠ [] → hasTag doc name = true) ∧
    ∀ parts parts', AreBlocks parts → AreBlocks parts' →
      (parts.filter fun part => hasTag part name) = (parts'.filter fun part => hasTag part name) →
      tagArguments ("\n".intercalate parts) name = tagArguments ("\n".intercalate parts') name := by
  refine ⟨fun doc doc' h => ⟨tagArguments_append name doc h, hasTag_append name doc doc'⟩, ?_, ?_, ?_, ?_⟩
  · intro doc doc' before hlines hbefore
    constructor
    · rw [tagArguments, hlines]
      exact argumentsFrom_behind hbefore
    · rw [hasTag_eq, hlines, List.any_append, any_isTagOf_of_untagged hbefore, Bool.false_or]
      rfl
  · intro doc line rest t hlines hread hrest
    exact ⟨tagArguments_block hlines hread hrest, hasTag_block hlines hread hrest⟩
  · intro doc hne
    by_contra hnone
    exact hne (tagArguments_eq_nil (Bool.eq_false_iff.mpr hnone))
  · intro parts parts' h h' hsame
    rw [tagArguments_intercalate name h, tagArguments_intercalate name h', flatMap_tagArguments,
      flatMap_tagArguments name parts', hsame]

/-- The name of the tag that allows kinds of errors. -/
def allowance : String := "oz-upgrades-unsafe-allow"

/-- The first line of a block with the tag. -/
def callsLine : String := "@custom:oz-upgrades-unsafe-allow delegatecall"

/-- A block with the tag, continued on a second line. -/
def callsBlock : String := "@custom:oz-upgrades-unsafe-allow delegatecall\n  selfdestruct"

/-- A block of another tag, continued on a second line. -/
def noteBlock : String := "@dev Calls\nconstructor"

/-- Documentation with a block of the tag between text and a block of another tag. -/
def vaultParts : List String := ["A vault.", callsBlock, noteBlock]

/-- The same block of the tag, with the other one in front and nothing before them. -/
def movedParts : List String := [noteBlock, callsBlock]

theorem tagArguments_local_vault :
    StartsTag callsBlock ∧
    tagArguments (noteBlock ++ "\n" ++ callsBlock) allowance =
      tagArguments noteBlock allowance ++ tagArguments callsBlock allowance ∧
    tagArguments ("A vault.\r" ++ "\n" ++ noteBlock) allowance = tagArguments noteBlock allowance ∧
    tagArguments callsBlock allowance = ["delegatecall"] ++ ["  selfdestruct"].flatMap Text.words ∧
    tagArguments callsBlock allowance ≠ [] ∧ hasTag callsBlock allowance = true ∧
    AreBlocks vaultParts ∧ AreBlocks movedParts ∧
    tagArguments ("\n".intercalate movedParts) allowance =
      tagArguments ("\n".intercalate vaultParts) allowance := by
  obtain ⟨happend, hbefore, hblock, htag, hblocks⟩ := tagArguments_local allowance
  have hlines : Text.lines callsBlock = [callsLine, "  selfdestruct"] := by decide +kernel
  have hread : TagLine.read? callsLine.toList = some ⟨"custom", some allowance, ["delegatecall"]⟩ := by
    decide +kernel
  have hstarts : StartsTag callsBlock := ⟨callsLine, by rw [hlines]; rfl, by rw [isTagLine, hread]; rfl⟩
  have hnote : StartsTag noteBlock := by decide +kernel
  have hcalls : tagArguments callsBlock allowance =
      ["delegatecall"] ++ ["  selfdestruct"].flatMap Text.words :=
    (hblock callsBlock callsLine _ _ hlines hread (by decide +kernel)).1.trans (if_pos (by decide))
  have hne : tagArguments callsBlock allowance ≠ [] := by
    rw [hcalls]
    exact List.cons_ne_nil _ _
  have hvault : AreBlocks vaultParts :=
    List.forall_mem_cons.mpr ⟨hstarts, List.forall_mem_singleton.mpr hnote⟩
  have hmoved : AreBlocks movedParts := List.forall_mem_singleton.mpr hstarts
  have hsame : (movedParts.filter fun part => hasTag part allowance) =
      vaultParts.filter fun part => hasTag part allowance := by
    have htext : hasTag "A vault." allowance = false := by decide +kernel
    have hother : hasTag noteBlock allowance = false := by decide +kernel
    simp only [movedParts, vaultParts, List.filter_cons, htext, hother, Bool.false_eq_true, if_false]
  exact ⟨hstarts, (happend noteBlock callsBlock hstarts).1,
    (hbefore _ noteBlock ["A vault."] (by decide +kernel) (by decide +kernel)).1, hcalls, hne,
    htag callsBlock hne, hvault, hmoved, hblocks movedParts vaultParts hmoved hvault hsame⟩

end Syntax

end UpgradeSafety
