import Mathlib.Data.List.Basic
import SourceCoverage.Path

namespace SourceCoverage.Path

theorem parts_ne_nil (text : List Char) : parts text ≠ [] := by
  fun_cases parts text <;> simp

theorem parts_cons_of_ne {c : Char} (noSlash : c ≠ '/') {text part : List Char} {others : List (List Char)}
    (divided : parts text = part :: others) : parts (c :: text) = (c :: part) :: others := by
  rw [parts, divided]
  exact noSlash

theorem parts_slash (text : List Char) : parts ('/' :: text) = [] :: parts text := by rw [parts]

theorem parts_append_slash (a b : List Char) : parts (a ++ '/' :: b) = parts a ++ parts b := by
  induction a with
  | nil => rw [List.nil_append, parts_slash, parts, List.singleton_append]
  | cons c a ih =>
    by_cases slash : c = '/'
    · subst slash
      rw [List.cons_append, parts_slash, ih, parts_slash, List.cons_append]
    · obtain ⟨part, others, divided⟩ := List.exists_cons_of_ne_nil (parts_ne_nil a)
      rw [divided, List.cons_append] at ih
      rw [List.cons_append, parts_cons_of_ne slash ih, parts_cons_of_ne slash divided, List.cons_append]

theorem parts_of_notMem {part : List Char} (noSlash : '/' ∉ part) : parts part = [part] := by
  induction part with
  | nil => rfl
  | cons c part ih =>
    rw [List.mem_cons, not_or] at noSlash
    exact parts_cons_of_ne (Ne.symm noSlash.1) (ih noSlash.2)

theorem slash_notMem_of_parts {text part : List Char} (member : part ∈ parts text) : '/' ∉ part := by
  induction text generalizing part with
  | nil =>
    rw [List.mem_singleton.mp member]
    exact List.not_mem_nil
  | cons c text ih =>
    by_cases slash : c = '/'
    · subst slash
      rw [parts_slash] at member
      rcases List.mem_cons.mp member with rfl | inside
      · exact List.not_mem_nil
      · exact ih inside
    · obtain ⟨first, others, divided⟩ := List.exists_cons_of_ne_nil (parts_ne_nil text)
      rw [parts_cons_of_ne slash divided] at member
      rcases List.mem_cons.mp member with rfl | inside
      · rw [List.mem_cons, not_or]
        exact ⟨Ne.symm slash, ih (by rw [divided]; exact List.mem_cons_self)⟩
      · exact ih (by rw [divided]; exact List.mem_cons_of_mem _ inside)

/-- The parts of a text that name something. -/
def named (text : List Char) : List (List Char) := (parts text).filter (! isSilent ·)

theorem named_append_slash (a b : List Char) : named (a ++ '/' :: b) = named a ++ named b := by
  rw [named, parts_append_slash, List.filter_append, named, named]

theorem named_slash (text : List Char) : named ('/' :: text) = named text := named_append_slash [] text

theorem named_of_notMem {part : List Char} (noSlash : '/' ∉ part) :
    named part = if isSilent part then [] else [part] := by
  rw [named, parts_of_notMem noSlash]
  by_cases silent : isSilent part = true <;> simp [silent]

theorem isSilent_reverse (part : List Char) : isSilent part.reverse = isSilent part := by
  rw [Bool.eq_iff_iff]
  simp [isSilent, List.reverse_eq_iff]

/-- A reversed text, divided at its last slash. -/
theorem named_reverse (reversed : List Char) :
    named reversed.reverse = named ((reversed.dropWhile (· != '/')).drop 1).reverse ++
      if isSilent (reversed.takeWhile (· != '/')) then [] else [(reversed.takeWhile (· != '/')).reverse] := by
  have noSlash : '/' ∉ (reversed.takeWhile (· != '/')).reverse := by
    intro member
    simpa using List.all_eq_true.mp List.all_takeWhile _ (List.mem_reverse.mp member)
  have last := named_of_notMem noSlash
  rw [isSilent_reverse] at last
  rw [← last]
  have whole := List.takeWhile_append_dropWhile (p := (· != '/')) (l := reversed)
  cases rest : reversed.dropWhile (· != '/') with
  | nil =>
    rw [rest, List.append_nil] at whole
    rw [whole]
    rfl
  | cons c tail =>
    have slash : c = '/' := by
      have := List.head?_dropWhile_not (· != '/') reversed
      simpa [rest] using this
    rw [rest, slash] at whole
    have split : reversed.reverse = tail.reverse ++ '/' :: (reversed.takeWhile (· != '/')).reverse := by
      rw [← List.reverse_inj, List.reverse_append, List.reverse_cons, List.reverse_reverse, List.reverse_reverse,
        List.reverse_reverse, List.append_assoc, List.singleton_append]
      exact whole.symm
    rw [split, named_append_slash]
    rfl

theorem dropSilent_suffix (reversed : List Char) : dropSilent reversed <:+ reversed := by
  fun_induction dropSilent reversed with
  | case1 => exact List.suffix_rfl
  | case2 c rest silent ih => exact ih.trans ((List.drop_suffix 1 _).trans (List.dropWhile_suffix _))
  | case3 c rest heard => exact List.suffix_rfl

theorem named_dropSilent (reversed : List Char) : named (dropSilent reversed).reverse = named reversed.reverse := by
  fun_induction dropSilent reversed with
  | case1 => rfl
  | case2 c rest silent ih => rw [ih, named_reverse (c :: rest), if_pos silent, List.append_nil]
  | case3 c rest heard => rfl

/-- What is left ends in a part that names something. -/
theorem not_isSilent_of_dropSilent {reversed : List Char} (some : dropSilent reversed ≠ []) :
    isSilent ((dropSilent reversed).takeWhile (· != '/')) = false := by
  fun_induction dropSilent reversed with
  | case1 => exact absurd rfl some
  | case2 c rest silent ih => exact ih some
  | case3 c rest heard => simpa using heard

/-- The mark at the front of a text, and what follows it. -/
theorem Shape.ofChars_cases (text : List Char) :
    (∃ body, text = '/' :: body ∧ ofChars text = ⟨some .root, body⟩) ∨
      (text = ['.'] ∧ ofChars text = ⟨some .current, []⟩) ∨
      (∃ body, text = '.' :: '/' :: body ∧ ofChars text = ⟨some .current, '/' :: body⟩) ∨
      (text.head? ≠ some '/' ∧ ofChars text = ⟨none, text⟩) := by
  fun_cases ofChars text with
  | case1 body => exact Or.inl ⟨body, rfl, rfl⟩
  | case2 => exact Or.inr (Or.inl ⟨rfl, rfl⟩)
  | case3 body => exact Or.inr (Or.inr (Or.inl ⟨body, rfl, rfl⟩))
  | case4 body noRoot noDot noCurrent =>
    refine Or.inr (Or.inr (Or.inr ⟨?_, ?_⟩))
    · intro root
      cases text with
      | nil => cases root
      | cons c body =>
        cases root
        exact noRoot body rfl
    · rfl

theorem named_body (p : Path) : named p.shape.body = named p.text.toList := by
  unfold shape
  rcases Shape.ofChars_cases p.text.toList with ⟨body, text, divided⟩ | ⟨text, divided⟩ | ⟨body, text, divided⟩ |
    ⟨_, divided⟩
  · rw [divided, text, named_slash]
  · rw [divided, text]
    rfl
  · rw [divided, text]
    exact (named_append_slash ['.'] body).symm
  · rw [divided]

theorem isAbsolute_eq (p : Path) : p.isAbsolute = (p.text.toList.head? == some '/') := by
  unfold isAbsolute shape
  rcases Shape.ofChars_cases p.text.toList with ⟨body, text, divided⟩ | ⟨text, divided⟩ | ⟨body, text, divided⟩ |
    ⟨relative, divided⟩
  · rw [divided, text]
    rfl
  · rw [divided, text]
    rfl
  · rw [divided, text]
    rfl
  · rw [divided, beq_eq_false_iff_ne.mpr relative]
    rfl

/-- A path has a file name if the last of its steps is a name. -/
theorem fileName?_cases (p : Path) :
    (∃ front name, p.fileName? = some name ∧ named p.text.toList = front ++ [name.toList] ∧ name ≠ "..") ∨
      (p.fileName? = none ∧ (named p.text.toList = [] ∨ ∃ front, named p.text.toList = front ++ [['.', '.']])) := by
  have components : p.components = p.shape.lead.toList ++ (named p.shape.body).map Component.ofPart := rfl
  rw [← named_body, fileName?, components]
  rcases List.eq_nil_or_concat (named p.shape.body) with none | ⟨front, part, steps⟩
  · refine Or.inr ⟨?_, Or.inl none⟩
    rw [none, shape]
    rcases Shape.ofChars_cases p.text.toList with ⟨_, _, divided⟩ | ⟨_, divided⟩ | ⟨_, _, divided⟩ | ⟨_, divided⟩ <;>
      rw [divided] <;> rfl
  · rw [List.concat_eq_append] at steps
    rw [steps, List.map_append, ← List.append_assoc, List.map_singleton, List.getLast?_concat, Component.ofPart]
    by_cases parent : part = ['.', '.']
    · exact Or.inr ⟨by rw [parent]; rfl, Or.inr ⟨front, by rw [parent]⟩⟩
    · refine Or.inl ⟨front, String.ofList part, ?_, by rw [String.toList_ofList], ?_⟩
      · rw [beq_eq_false_iff_ne.mpr parent]
        rfl
      · intro dots
        exact parent (by rw [← String.toList_ofList (l := part), dots]; decide)

theorem slash_notMem_fileName {p : Path} {name : String} (found : p.fileName? = some name) : '/' ∉ name.toList := by
  rcases fileName?_cases p with ⟨front, own, fileName, steps, _⟩ | ⟨fileName, _⟩
  · rw [found] at fileName
    cases fileName
    have inside : name.toList ∈ named p.text.toList := by simp [steps]
    exact slash_notMem_of_parts (List.mem_of_mem_filter inside)
  · rw [found] at fileName
    cases fileName

/-- The parent of a path with a file name has all steps but the last. -/
theorem parent?_eq_some {p : Path} {front : List (List Char)} {name : List Char}
    (steps : named p.text.toList = front ++ [name]) :
    ∃ parent, p.parent? = some parent ∧ named parent.text.toList = front ∧ parent.isAbsolute = p.isAbsolute := by
  rw [← named_body, ← List.reverse_reverse p.shape.body, ← named_dropSilent] at steps
  have present : dropSilent p.shape.body.reverse ≠ [] := by
    intro empty
    rw [empty] at steps
    exact absurd steps.symm (by simp [named, parts, isSilent])
  rw [named_reverse, not_isSilent_of_dropSilent present] at steps
  have upper := (List.append_inj' steps rfl).1
  rw [← named_dropSilent] at upper
  have start := ((dropSilent_suffix _).trans ((List.drop_suffix 1 _).trans
    (List.dropWhile_suffix (· != '/')))).trans (dropSilent_suffix p.shape.body.reverse)
  rw [← List.reverse_prefix, List.reverse_reverse] at start
  have found : p.parent? = some ⟨(p.shape.lead.elim "" Component.text) ++ String.ofList
      (dropSilent (((dropSilent p.shape.body.reverse).dropWhile (· != '/')).drop 1)).reverse⟩ := by
    unfold parent?
    dsimp only
    split
    · rename_i empty
      exact absurd empty present
    · cases p.shape.lead <;> rfl
  -- What is left of the body names the upper steps; the mark in front of it goes on to name nothing.
  generalize (dropSilent (((dropSilent p.shape.body.reverse).dropWhile (· != '/')).drop 1)).reverse = left at *
  refine ⟨_, found, ?_⟩
  simp only [isAbsolute_eq, String.toList_append, String.toList_ofList]
  unfold shape at start ⊢
  have root : (Component.text .root).toList = ['/'] := by decide
  have current : (Component.text .current).toList = ['.'] := by decide
  rcases Shape.ofChars_cases p.text.toList with ⟨body, text, divided⟩ | ⟨text, divided⟩ | ⟨body, text, divided⟩ |
    ⟨relative, divided⟩
  · simp only [divided, Option.elim_some, root, List.singleton_append]
    rw [text]
    exact ⟨(named_slash left).trans upper, rfl⟩
  · simp only [divided, Option.elim_some, current, List.singleton_append] at start ⊢
    rw [List.prefix_nil.mp start] at upper ⊢
    rw [text]
    exact ⟨upper, rfl⟩
  · simp only [divided, Option.elim_some, current, List.singleton_append] at start ⊢
    rw [text]
    cases left with
    | nil => exact ⟨upper, rfl⟩
    | cons c left =>
      obtain ⟨rfl, _⟩ := List.cons_prefix_cons.mp start
      rw [named_slash] at upper
      exact ⟨(named_append_slash ['.'] left).trans upper, rfl⟩
  · simp only [divided, Option.elim_none, String.toList_empty, List.nil_append] at start ⊢
    refine ⟨upper, ?_⟩
    rw [beq_eq_false_iff_ne.mpr relative]
    cases left with
    | nil => rfl
    | cons c left =>
      obtain ⟨rest, text⟩ := start
      rw [← text] at relative
      exact beq_eq_false_iff_ne.mpr relative

theorem isAbsolute_of_notMem {name : String} (noSlash : '/' ∉ name.toList) : (⟨name⟩ : Path).isAbsolute = false := by
  rw [isAbsolute_eq, beq_eq_false_iff_ne]
  exact fun slash => noSlash (List.mem_of_head? slash)

/-- How a name without a slash is put behind a path: after a slash, one that is there or a new one. -/
theorem join_cases (p : Path) {name : String} (noSlash : '/' ∉ name.toList) :
    (p.text = "" ∧ (p.join ⟨name⟩).text = name) ∨ p.text ≠ "" ∧ ∃ front,
      (p.join ⟨name⟩).text.toList = front ++ '/' :: name.toList ∧
      (p.text.toList = front ∨ p.text.toList = front ++ ['/']) := by
  have slash : "/".toList = ['/'] := by decide
  unfold join
  rw [isAbsolute_of_notMem noSlash, if_neg Bool.false_ne_true]
  by_cases empty : p.text = ""
  · exact Or.inl ⟨empty, by simp [empty]⟩
  refine Or.inr ⟨empty, ?_⟩
  by_cases closed : p.text.endsWith "/" = true
  · rw [closed, Bool.or_true, if_pos rfl]
    rw [← String.endsWith_toSlice, String.Slice.endsWith_string_iff, String.copy_toSlice] at closed
    obtain ⟨front, text⟩ := closed
    rw [slash] at text
    exact ⟨front, by rw [String.toList_append, ← text, List.append_assoc, List.singleton_append], Or.inr text.symm⟩
  · have opened : (p.text.isEmpty || p.text.endsWith "/") = false := by
      simpa [String.isEmpty_iff, empty] using closed
    rw [opened, if_neg Bool.false_ne_true]
    refine ⟨p.text.toList, ?_, Or.inl rfl⟩
    rw [String.toList_append, String.toList_append, slash, List.append_assoc, List.singleton_append]

/-- A name without a slash behind a path is one more step. -/
theorem named_join {p : Path} {name : String} (noSlash : '/' ∉ name.toList) (heard : isSilent name.toList = false) :
    named (p.join ⟨name⟩).text.toList = named p.text.toList ++ [name.toList] ∧
      (p.join ⟨name⟩).isAbsolute = p.isAbsolute := by
  have single : named name.toList = [name.toList] := by rw [named_of_notMem noSlash, heard]; rfl
  have silent : named [] = [] := rfl
  rcases join_cases p noSlash with ⟨empty, text⟩ | ⟨present, front, text, before⟩
  · have absolute : p.isAbsolute = false := by rw [isAbsolute_eq, empty]; rfl
    have absolute' := isAbsolute_of_notMem noSlash
    rw [isAbsolute_eq] at absolute'
    rw [isAbsolute_eq, text, empty, absolute]
    exact ⟨single, absolute'⟩
  · have present : p.text.toList ≠ [] := by simpa using present
    rw [isAbsolute_eq, isAbsolute_eq, text, named_append_slash, single]
    rcases before with same | closed
    · rw [same] at present ⊢
      rw [List.head?_append_of_ne_nil _ present]
      exact ⟨rfl, rfl⟩
    · rw [closed, named_append_slash, silent, List.append_nil]
      refine ⟨rfl, ?_⟩
      cases front <;> rfl

theorem endsWith_join (p : Path) {name : String} (noSlash : '/' ∉ name.toList) (named : name ≠ "") :
    (p.join ⟨name⟩).text.endsWith "/" = false := by
  have last : ∀ front : List Char, ¬ ['/'] <:+ front ++ name.toList := by
    intro front closed
    have present : name.toList ≠ [] := by simpa using named
    obtain ⟨before, text⟩ := closed
    have ends := congrArg List.getLast? text
    rw [List.getLast?_concat, List.getLast?_append_of_ne_nil _ present] at ends
    exact noSlash (List.mem_of_getLast? ends.symm)
  rw [← String.endsWith_toSlice, String.Slice.endsWith_string_eq_false_iff, String.copy_toSlice]
  rcases join_cases p noSlash with ⟨_, text⟩ | ⟨_, front, text, _⟩
  · rw [text]
    exact last []
  · rw [text, ← List.singleton_append, ← List.append_assoc]
    exact last _

theorem dropSilent_eq_self {reversed : List Char} (heard : isSilent (reversed.takeWhile (· != '/')) = false) :
    dropSilent reversed = reversed := by
  fun_cases dropSilent reversed with
  | case1 => rfl
  | case2 c rest silent =>
    rw [heard] at silent
    cases silent
  | case3 c rest _ => rfl

/-- A reversed body that ends in a name, without the name. -/
theorem dropSilent_name {name : List Char} (noSlash : '/' ∉ name) (heard : isSilent name = false) {rest : List Char}
    (closed : rest = [] ∨ rest.head? = some '/') :
    dropSilent (name.reverse ++ rest) = name.reverse ++ rest ∧
      (name.reverse ++ rest).dropWhile (· != '/') = rest := by
  have inside : ∀ c ∈ name.reverse, (c != '/') = true := by
    intro c member
    rw [bne_iff_ne]
    rintro rfl
    exact noSlash (List.mem_reverse.mp member)
  have stops : rest.takeWhile (· != '/') = [] ∧ rest.dropWhile (· != '/') = rest := by
    rcases closed with rfl | slash
    · exact ⟨rfl, rfl⟩
    · cases rest with
      | nil => cases slash
      | cons c rest =>
        cases slash
        exact ⟨rfl, rfl⟩
  constructor
  · refine dropSilent_eq_self ?_
    rw [List.takeWhile_append_of_pos inside, stops.1, List.append_nil, isSilent_reverse, heard]
  · rw [List.dropWhile_append_of_pos inside, stops.2]

/-- The text of the parent is that of the path up to some place before the last slash. -/
theorem parent?_of_slash {p : Path} {front name : List Char} (text : p.text.toList = front ++ '/' :: name)
    (noSlash : '/' ∉ name) (heard : isSilent name = false) :
    ∃ parent, p.parent? = some parent ∧ (parent.text.toList <+: front ∨ front = [] ∧ parent.text.toList = ['/']) := by
  have found (rest : List Char) (body : p.shape.body.reverse = name.reverse ++ rest)
      (closed : rest = [] ∨ rest.head? = some '/') : p.parent? = some ⟨p.shape.lead.elim "" Component.text ++
        String.ofList (dropSilent (rest.drop 1)).reverse⟩ := by
    obtain ⟨whole, above⟩ := dropSilent_name noSlash heard closed
    unfold parent?
    dsimp only
    rw [body, whole]
    split
    · rename_i empty
      rw [List.append_eq_nil_iff, List.reverse_eq_nil_iff] at empty
      rw [empty.1] at heard
      cases heard
    · rw [above]
      cases p.shape.lead <;> rfl
  have start (before : List Char) : (dropSilent before.reverse).reverse <+: before := by
    simpa using List.reverse_prefix.mpr (dropSilent_suffix before.reverse)
  -- The body is the text without the mark in front of it, which may hold the only slash.
  have inBody {before : List Char} (body : p.shape.body = before ++ '/' :: name) :
      ∃ left, left <+: before ∧ p.parent? = some ⟨p.shape.lead.elim "" Component.text ++ String.ofList left⟩ :=
    ⟨_, start before, found ('/' :: before.reverse) (by simp [body]) (Or.inr rfl)⟩
  have root : (Component.text .root).toList = ['/'] := by decide
  have current : (Component.text .current).toList = ['.'] := by decide
  unfold shape at found inBody
  rcases Shape.ofChars_cases p.text.toList with ⟨body, own, divided⟩ | ⟨own, _⟩ | ⟨body, own, divided⟩ |
    ⟨relative, divided⟩
  · rw [divided] at found inBody
    rw [text] at own
    cases front with
    | nil =>
      obtain rfl : name = body := (List.cons.inj own).2
      exact ⟨_, found [] (by simp) (Or.inl rfl), Or.inr ⟨rfl, by simp [root, dropSilent]⟩⟩
    | cons c front =>
      obtain ⟨rfl, rfl⟩ := List.cons.inj own
      obtain ⟨left, before, parent⟩ := inBody rfl
      exact ⟨_, parent, Or.inl (by simpa [root] using before)⟩
  · rw [text] at own
    cases front with
    | nil => cases own
    | cons c front => cases front <;> simp at own
  · rw [divided] at inBody
    rw [text] at own
    cases front with
    | nil => cases own
    | cons c front =>
      obtain ⟨rfl, rest⟩ := List.cons.inj own
      obtain ⟨left, before, parent⟩ := inBody rest.symm
      exact ⟨_, parent, Or.inl (by simpa [current] using before)⟩
  · rw [divided] at inBody
    obtain ⟨left, before, parent⟩ := inBody text
    exact ⟨_, parent, Or.inl (by simpa using before)⟩

/-- The parent of a path that ends in a name behind another path is spelled like that path, or shorter. -/
theorem parent?_join {p : Path} {name : String} (noSlash : '/' ∉ name.toList) (heard : isSilent name.toList = false)
    (spelled : p.text ≠ "") : ∃ parent, (p.join ⟨name⟩).parent? = some parent ∧
      parent.text.toList <+: p.text.toList ∧ named parent.text.toList = named p.text.toList ∧
      parent.isAbsolute = p.isAbsolute := by
  obtain ⟨steps, absolute⟩ := named_join (p := p) noSlash heard
  obtain ⟨parent, parent?, above, absolute'⟩ := parent?_eq_some steps
  refine ⟨parent, parent?, ?_, above, absolute'.trans absolute⟩
  rcases join_cases p noSlash with ⟨empty, _⟩ | ⟨_, front, text, before⟩
  · exact absurd empty spelled
  obtain ⟨_, found, short⟩ := parent?_of_slash text noSlash heard
  cases parent?.symm.trans found
  rcases short with short | ⟨rfl, root⟩
  · rcases before with same | closed
    · rwa [same]
    · rw [closed]
      exact short.trans (List.prefix_append _ _)
  · rcases before with same | closed
    · exact absurd (by simpa using same) spelled
    · rw [root, closed]
      exact List.prefix_rfl

/-- A name with a character other than a dot names something. -/
theorem isSilent_eq_false {name : List Char} {c : Char} (inside : c ∈ name) (noDot : c ≠ '.') :
    isSilent name = false := by
  unfold isSilent
  rw [Bool.or_eq_false_iff, beq_eq_false_iff_ne, beq_eq_false_iff_ne]
  constructor
  · rintro rfl
    exact List.not_mem_nil inside
  · rintro rfl
    exact noDot (List.mem_singleton.mp inside)

/-- The file name of a path is its last step, unless this leads upwards. -/
theorem fileName?_eq (p : Path) : p.fileName? = (named p.text.toList).getLast?.bind fun part =>
    if part = ['.', '.'] then none else some (String.ofList part) := by
  rcases fileName?_cases p with ⟨front, name, found, steps, notUp⟩ | ⟨absent, none | ⟨front, steps⟩⟩
  · have other : name.toList ≠ ['.', '.'] := by
      intro dots
      exact notUp (String.toList_inj.mp (dots.trans (by decide)))
    simp [found, steps, other]
  · simp [absent, none]
  · simp [absent, steps]

theorem fileName?_join (p : Path) {name : String} (noSlash : '/' ∉ name.toList) {c : Char} (inside : c ∈ name.toList)
    (noDot : c ≠ '.') : (p.join ⟨name⟩).fileName? = some name := by
  have other : name.toList ≠ ['.', '.'] := by
    intro dots
    simp [dots, noDot] at inside
  simp [fileName?_eq, (named_join noSlash (isSilent_eq_false inside noDot)).1, other]

theorem named_join_empty (p : Path) : named (p.join ⟨""⟩).text.toList = named p.text.toList := by
  have silent : named [] = [] := rfl
  have noSlash : '/' ∉ "".toList := by simp
  rcases join_cases p noSlash with ⟨empty, text⟩ | ⟨_, front, text, same | closed⟩
  · rw [text, empty]
  · rw [text, same, named_append_slash, String.toList_empty, silent, List.append_nil]
  · rw [text, closed, String.toList_empty]

theorem text_ofPart (part : List Char) : (Component.ofPart part).text = String.ofList part := by
  unfold Component.ofPart
  split
  · rename_i up
    rw [beq_iff_eq] at up
    rw [up]
    decide
  · rfl

/-- Steps that are put behind a path one after another. -/
theorem named_foldl_join {parts : List (List Char)} (apart : ∀ part ∈ parts, '/' ∉ part ∧ isSilent part = false)
    (base : Path) : named ((parts.map Component.ofPart).foldl (fun base c => base.join ⟨c.text⟩) base).text.toList =
      named base.text.toList ++ parts := by
  induction parts generalizing base with
  | nil => simp
  | cons part parts ih =>
    obtain ⟨⟨noSlash, heard⟩, others⟩ := List.forall_mem_cons.mp apart
    have step : named (base.join ⟨String.ofList part⟩).text.toList = named base.text.toList ++ [part] := by
      rw [← String.toList_ofList (l := part)] at noSlash heard
      rw [(named_join noSlash heard).1, String.toList_ofList]
    rw [List.map_cons, List.foldl_cons, ih others, text_ofPart, step, List.append_assoc, List.singleton_append]

theorem components_eq (p : Path) : p.components = p.shape.lead.toList ++
    (named p.text.toList).map Component.ofPart := by
  rw [← named_body]
  rfl

theorem not_isSilent_of_mem_named {text part : List Char} (member : part ∈ named text) :
    '/' ∉ part ∧ isSilent part = false := by
  obtain ⟨inside, heard⟩ := List.mem_filter.mp member
  exact ⟨slash_notMem_of_parts inside, by simpa using heard⟩

/-- The components of a path that lead anywhere. -/
theorem filter_components (p : Path) : p.components.filter (· != .current) =
    (if p.isAbsolute then [Component.root] else []) ++ (named p.text.toList).map Component.ofPart := by
  have others : ((named p.text.toList).map Component.ofPart).filter (· != .current) =
      (named p.text.toList).map Component.ofPart := by
    refine List.filter_eq_self.mpr fun c member => ?_
    obtain ⟨part, _, rfl⟩ := List.mem_map.mp member
    unfold Component.ofPart
    split <;> rfl
  rw [components_eq, List.filter_append, others, isAbsolute]
  congr 1
  unfold shape
  rcases Shape.ofChars_cases p.text.toList with ⟨_, _, divided⟩ | ⟨_, divided⟩ | ⟨_, _, divided⟩ | ⟨_, divided⟩ <;>
    rw [divided] <;> rfl

/-- A path as seen from the root ends with the steps of the path; an absolute path has no others. -/
theorem named_absolute? {workingDirectory : Option Path} {p whole : Path}
    (found : p.absolute? workingDirectory = some whole) :
    ∃ front, named whole.text.toList = front ++ named p.text.toList ∧ (p.isAbsolute = true → front = []) := by
  have behind := named_foldl_join fun part (member : part ∈ named p.text.toList) => not_isSilent_of_mem_named member
  unfold absolute? at found
  rw [filter_components] at found
  obtain ⟨⟨base, parts⟩, start, rfl⟩ := Option.map_eq_some_iff.mp found
  obtain ⟨front, steps, root⟩ : ∃ front, named (parts.foldl (fun base c => base.join ⟨c.text⟩) base).text.toList =
      front ++ named p.text.toList ∧ (p.isAbsolute = true → front = []) := by
    cases absolute : p.isAbsolute with
    | false =>
      simp only [absolute, Bool.not_false, if_true, Bool.false_eq_true, if_false, List.nil_append] at start
      obtain ⟨_, start⟩ := Option.ite_none_left_eq_some.mp start
      obtain ⟨directory, _, pair⟩ := Option.map_eq_some_iff.mp start
      obtain ⟨rfl, rfl⟩ := Prod.mk.inj pair
      exact ⟨_, behind directory, nofun⟩
    | true =>
      simp only [absolute, Bool.not_true, Bool.false_eq_true, if_false, if_true, List.singleton_append,
        List.drop_succ_cons, List.drop_zero] at start
      obtain ⟨_, start⟩ := Option.ite_none_left_eq_some.mp start
      have slashes : named "//".toList = [] := by decide
      have root : named ((⟨""⟩ : Path).join ⟨Component.root.text⟩).text.toList = [] := by decide
      refine ⟨[], ?_, fun _ => rfl⟩
      split at start
      · obtain ⟨rfl, rfl⟩ := Prod.mk.inj (Option.some.inj start)
        rw [behind, slashes]
      · obtain ⟨rfl, rfl⟩ := Prod.mk.inj (Option.some.inj start)
        rw [List.foldl_cons, behind, root]
  refine ⟨front, ?_, root⟩
  -- A slash at the end is no step.
  dsimp only
  split
  · rw [named_join_empty, steps]
  · exact steps

/-- Only a path that starts at the root, and the current directory, have no steps. -/
theorem cases_of_named_eq_nil {p : Path} (nowhere : named p.text.toList = []) :
    p.text = "" ∨ p.components = [.current] ∨ p.isAbsolute = true := by
  rw [components_eq, nowhere, isAbsolute]
  unfold shape
  rcases Shape.ofChars_cases p.text.toList with ⟨_, _, divided⟩ | ⟨_, divided⟩ | ⟨_, _, divided⟩ | ⟨relative, divided⟩
  · exact Or.inr (Or.inr (by rw [divided]; rfl))
  · exact Or.inr (Or.inl (by rw [divided]; rfl))
  · exact Or.inr (Or.inl (by rw [divided]; rfl))
  · cases text : p.text.toList with
    | nil => exact Or.inl (String.toList_eq_nil_iff.mp text)
    | cons c rest =>
      rw [text] at relative divided nowhere
      have noSlash : c ≠ '/' := fun slash => relative (congrArg some slash)
      obtain ⟨part, others, behind⟩ := List.exists_cons_of_ne_nil (parts_ne_nil rest)
      have silent : isSilent (c :: part) = true := by
        rw [named, parts_cons_of_ne noSlash behind, List.filter_eq_nil_iff] at nowhere
        simpa using nowhere _ List.mem_cons_self
      obtain ⟨rfl, rfl⟩ : c = '.' ∧ part = [] := by simpa [isSilent] using silent
      -- a dot in front of a slash, or alone, would have been the mark of the path
      cases rest with
      | nil => cases divided
      | cons d rest =>
        by_cases slash : d = '/'
        · subst slash
          cases divided
        · obtain ⟨part, others', behind'⟩ := List.exists_cons_of_ne_nil (parts_ne_nil rest)
          rw [parts_cons_of_ne slash behind'] at behind
          cases behind

end SourceCoverage.Path
