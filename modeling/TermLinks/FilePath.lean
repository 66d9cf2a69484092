import Mathlib.Tactic.Common

namespace TermLinks.FilePath

/-- Puts one element of a path on the stack of those before it, the last one on top. -/
def push (rooted : Bool) (stack : List (List Char)) (element : List Char) : List (List Char) :=
  if element = [] ∨ element = ['.'] then stack
  else if element = ['.', '.'] then
    match stack with
    | [] => if rooted then [] else [element]
    | top :: rest => if top = ['.', '.'] then element :: stack else rest
  else element :: stack

def glue : List (List Char) → List Char
  | [] => []
  | [element] => element
  | element :: rest => glue rest ++ '/' :: element

def render (rooted : Bool) (stack : List (List Char)) : List Char :=
  if rooted then '/' :: glue stack else if stack = [] then ['.'] else glue stack

def isRooted (path : List Char) : Bool := path.head? = some '/'

def stackOf (path : List Char) : List (List Char) := (path.splitOn '/').foldl (push (isRooted path)) []

def cleanChars (path : List Char) : List Char := render (isRooted path) (stackOf path)

/-- `filepath.Clean`, with `/` as the separator. -/
def clean (path : String) : String := String.ofList (cleanChars path.toList)

/-- `filepath.Join` of two elements. -/
def join (directory name : String) : String :=
  if directory = "" then (if name = "" then "" else clean name) else clean (directory ++ "/" ++ name)

/-- `filepath.Ext`: the last dot of the last element and what follows it. -/
def ext (path : String) : String :=
  let back := path.toList.reverse.takeWhile fun c => c ≠ '.' && c ≠ '/'
  if path.toList.reverse[back.length]? = some '.' then String.ofList ('.' :: back.reverse) else ""

/-- The name of an entry of a directory. -/
structure IsEntry (name : String) : Prop where
  nonempty : name ≠ ""
  notSelf : name ≠ "."
  notParent : name ≠ ".."
  separatorFree : '/' ∉ name.toList

/-- The path of an entry of a directory, for a directory given by a clean path. -/
def child (directory name : String) : String :=
  if directory = "." then name else if directory = "/" then "/" ++ name else directory ++ "/" ++ name

/-- What stands on the stack: elements of their own, and `..` only below all others of a relative path. -/
def Normal (rooted : Bool) : List (List Char) → Prop
  | [] => True
  | element :: rest =>
    Normal rooted rest ∧ element ≠ [] ∧ element ≠ ['.'] ∧ '/' ∉ element ∧
      (element = ['.', '.'] → rooted = false ∧ ∀ other ∈ rest, other = ['.', '.'])

section

variable {rooted : Bool} {stack : List (List Char)} {element : List Char}

theorem push_entry (nonempty : element ≠ []) (notSelf : element ≠ ['.']) (notParent : element ≠ ['.', '.']) :
    push rooted stack element = element :: stack := by
  unfold push
  rw [if_neg (not_or.mpr ⟨nonempty, notSelf⟩), if_neg notParent]

theorem normal_push (h : Normal rooted stack) (free : '/' ∉ element) :
    Normal rooted (push rooted stack element) := by
  unfold push
  split
  next => exact h
  next other =>
    obtain ⟨nonempty, notSelf⟩ := not_or.mp other
    split
    next parent =>
      cases stack with
      | nil =>
        dsimp only
        split
        next => trivial
        next relative =>
          exact ⟨trivial, nonempty, notSelf, free, fun _ => ⟨Bool.not_eq_true _ ▸ relative, nofun⟩⟩
      | cons top rest =>
        dsimp only
        split
        next up =>
          obtain ⟨relative, below⟩ := h.2.2.2.2 up
          refine ⟨h, nonempty, notSelf, free, fun _ => ⟨relative, ?_⟩⟩
          intro x hx
          rcases List.mem_cons.mp hx with rfl | hx
          · exact up
          · exact below x hx
        next => exact h.1
    next notParent => exact ⟨h, nonempty, notSelf, free, fun up => absurd up notParent⟩

theorem normal_foldl {elements : List (List Char)} (free : ∀ e ∈ elements, '/' ∉ e) (h : Normal rooted stack) :
    Normal rooted (elements.foldl (push rooted) stack) := by
  induction elements generalizing stack with
  | nil => exact h
  | cons e elements ih =>
    exact ih (fun x hx => free x (List.mem_cons_of_mem e hx)) (normal_push h (free e List.mem_cons_self))

theorem separator_free (path : List Char) : ∀ e ∈ path.splitOn '/', '/' ∉ e := by
  induction path with
  | nil => simp [List.splitOn_nil]
  | cons c path ih =>
    rw [List.splitOn_cons_eq_if_modifyHead]
    split
    next =>
      intro e he
      rcases List.mem_cons.mp he with rfl | he
      · exact List.not_mem_nil
      · exact ih e he
    next other =>
      have apart : c ≠ '/' := by simpa using other
      cases hp : path.splitOn '/' with
      | nil => exact absurd hp (List.splitOn_ne_nil _ _)
      | cons first rest =>
        rw [hp] at ih
        intro e he
        rcases List.mem_cons.mp he with rfl | he
        · have free := ih first List.mem_cons_self
          simp [free, Ne.symm apart]
        · exact ih e (List.mem_cons_of_mem _ he)

theorem normal_stackOf (path : List Char) : Normal (isRooted path) (stackOf path) :=
  normal_foldl (separator_free path) trivial

/-- The elements of a normal stack go back on it one by one. -/
theorem foldl_reverse (h : Normal rooted stack) : stack.reverse.foldl (push rooted) [] = stack := by
  induction stack with
  | nil => rfl
  | cons e rest ih =>
    obtain ⟨below, nonempty, notSelf, _, parents⟩ := h
    rw [List.reverse_cons, List.foldl_append, ih below, List.foldl_cons, List.foldl_nil]
    by_cases up : e = ['.', '.']
    · obtain ⟨relative, all⟩ := parents up
      subst up
      subst relative
      cases rest with
      | nil => rfl
      | cons top rest =>
        have same := all top List.mem_cons_self
        subst same
        rfl
    · exact push_entry nonempty notSelf up

theorem glue_cons (h : stack ≠ []) : glue (element :: stack) = glue stack ++ '/' :: element := by
  cases stack with
  | nil => exact absurd rfl h
  | cons top rest => rfl

theorem splitOn_glue (h : Normal rooted stack) (some : stack ≠ []) :
    (glue stack).splitOn '/' = stack.reverse := by
  induction stack with
  | nil => exact absurd rfl some
  | cons e rest ih =>
    have whole : e.splitOn '/' = [e] := List.splitOn_eq_singleton h.2.2.2.1
    by_cases last : rest = []
    · subst last
      exact whole
    · rw [glue_cons last, List.splitOn_append_cons_self, ih h.1 last, whole, List.reverse_cons]

/-- The first character of a relative path is no separator. -/
theorem head_glue (h : Normal rooted stack) : (glue stack).head? ≠ some '/' := by
  induction stack with
  | nil => exact nofun
  | cons e rest ih =>
    obtain ⟨below, nonempty, _, free, _⟩ := h
    by_cases last : rest = []
    · subst last
      intro head
      exact free (List.mem_of_mem_head? head)
    · rw [glue_cons last]
      cases hg : glue rest with
      | nil =>
        have whole := splitOn_glue below last
        rw [hg, List.splitOn_nil] at whole
        have single : rest = [[]] := by simpa using congrArg List.reverse whole.symm
        rw [single] at below
        exact absurd rfl below.2.1
      | cons c cs =>
        have first := ih below
        rw [hg] at first
        exact first

theorem glue_ne_nil (h : Normal rooted stack) (some : stack ≠ []) : glue stack ≠ [] := by
  intro empty
  have whole := splitOn_glue h some
  rw [empty, List.splitOn_nil] at whole
  have single : stack = [[]] := by simpa using congrArg List.reverse whole.symm
  rw [single] at h
  exact h.2.1 rfl

theorem isRooted_render (h : Normal rooted stack) : isRooted (render rooted stack) = rooted := by
  unfold isRooted render
  cases rooted with
  | true => rfl
  | false =>
    simp only [Bool.false_eq_true, if_false]
    split
    next => rfl
    next => exact decide_eq_false (head_glue h)

theorem stackOf_render (h : Normal rooted stack) : stackOf (render rooted stack) = stack := by
  unfold stackOf
  rw [isRooted_render h]
  unfold render
  by_cases empty : stack = []
  · subst empty
    cases rooted <;> rfl
  · cases rooted with
    | true =>
      have split : ('/' :: glue stack).splitOn '/' = [] :: (glue stack).splitOn '/' := by
        rw [List.splitOn_cons_eq_if_modifyHead]
        rfl
      rw [if_pos rfl, split, splitOn_glue h empty]
      exact foldl_reverse h
    | false =>
      rw [if_neg Bool.false_ne_true, if_neg empty, splitOn_glue h empty]
      exact foldl_reverse h

theorem cleanChars_render (h : Normal rooted stack) :
    cleanChars (render rooted stack) = render rooted stack := by
  rw [cleanChars, isRooted_render h, stackOf_render h]

end

theorem clean_clean (path : String) : clean (clean path) = clean path := by
  have same := cleanChars_render (normal_stackOf path.toList)
  simp only [clean, String.toList_ofList]
  rw [show cleanChars path.toList = render (isRooted path.toList) (stackOf path.toList) from rfl, same]

section

variable {directory name : String}

theorem IsEntry.chars (h : IsEntry name) :
    name.toList ≠ [] ∧ name.toList ≠ ['.'] ∧ name.toList ≠ ['.', '.'] := by
  have read : ∀ other : String, name ≠ other → name.toList ≠ other.toList := fun other apart same =>
    apart (String.toList_inj.mp same)
  exact ⟨read "" h.nonempty, read "." h.notSelf, read ".." h.notParent⟩

theorem normal_entry (h : IsEntry name) {rooted : Bool} {stack : List (List Char)}
    (below : Normal rooted stack) :
    Normal rooted (name.toList :: stack) := by
  obtain ⟨nonempty, notSelf, notParent⟩ := h.chars
  exact ⟨below, nonempty, notSelf, h.separatorFree, fun up => absurd up notParent⟩

theorem child_render {rooted : Bool} {stack : List (List Char)} (normal : Normal rooted stack) :
    child (String.ofList (render rooted stack)) name = String.ofList
      (render rooted (name.toList :: stack)) := by
  have chars : ∀ text other : String, text.toList ≠ other.toList → text ≠ other := fun _ _ apart same =>
    apart (congrArg String.toList same)
  apply String.toList_inj.mp
  unfold child
  by_cases empty : stack = []
  · subst empty
    cases rooted with
    | true =>
      have root : String.ofList (render true []) = "/" := rfl
      rw [root, if_neg (by decide), if_pos rfl]
      simp [render, glue]
    | false =>
      have self : String.ofList (render false []) = "." := rfl
      rw [self, if_pos rfl]
      simp [render, glue]
  · have more := glue_ne_nil normal empty
    have glued : glue (name.toList :: stack) = glue stack ++ '/' :: name.toList := glue_cons empty
    cases rooted with
    | true =>
      have notSelf : String.ofList (render true stack) ≠ "." := chars _ _ (by simp [render])
      have notRoot : String.ofList (render true stack) ≠ "/" := chars _ _ (by simp [render, more])
      rw [if_neg notSelf, if_neg notRoot]
      simp [render, glued]
    | false =>
      have single : stackOf (glue stack) = stack := by
        have back := stackOf_render normal
        rwa [render, if_neg Bool.false_ne_true, if_neg empty] at back
      have notSelf : String.ofList (render false stack) ≠ "." := by
        apply chars
        intro same
        have same : glue stack = ['.'] := by simpa [render, empty] using same
        rw [same] at single
        exact empty single.symm
      have notRoot : String.ofList (render false stack) ≠ "/" := by
        apply chars
        intro same
        have same : glue stack = ['/'] := by simpa [render, empty] using same
        have head := head_glue normal
        rw [same] at head
        exact head rfl
      rw [if_neg notSelf, if_neg notRoot]
      simp [render, glued, empty]

/-- An entry joined to a directory is a direct child of it. -/
theorem join_eq_child (h : IsEntry name) : join directory name = child (clean directory) name := by
  obtain ⟨nonempty, notSelf, notParent⟩ := h.chars
  unfold join
  by_cases empty : directory = ""
  · subst empty
    rw [if_pos rfl, if_neg h.nonempty]
    have whole : name.toList.splitOn '/' = [name.toList] := List.splitOn_eq_singleton h.separatorFree
    have relative : isRooted name.toList = false := by
      refine decide_eq_false ?_
      intro head
      exact h.separatorFree (List.mem_of_mem_head? head)
    have here : stackOf name.toList = [name.toList] := by
      rw [stackOf, whole]
      exact push_entry nonempty notSelf notParent
    have self : clean "" = "." := rfl
    rw [self, child, if_pos rfl, clean, cleanChars, relative, here, render, if_neg Bool.false_ne_true,
      if_neg (List.cons_ne_nil _ _), glue, String.ofList_toList]
  · rw [if_neg empty, clean, clean]
    have some : directory.toList ≠ [] := fun none => empty (String.toList_inj.mp none)
    have chars : (directory ++ "/" ++ name).toList = directory.toList ++ '/' :: name.toList := by simp
    have rooted : isRooted (directory.toList ++ '/' :: name.toList) = isRooted directory.toList := by
      unfold isRooted
      cases hd : directory.toList with
      | nil => exact absurd hd some
      | cons c cs => rfl
    have stack : stackOf (directory.toList ++ '/' :: name.toList) = name.toList :: stackOf directory.toList := by
      have whole : name.toList.splitOn '/' = [name.toList] := List.splitOn_eq_singleton h.separatorFree
      rw [stackOf, rooted, List.splitOn_append_cons_self, whole, List.foldl_append]
      exact push_entry nonempty notSelf notParent
    rw [chars, cleanChars, rooted, stack]
    exact (child_render (normal_stackOf directory.toList)).symm

theorem clean_join (h : IsEntry name) : clean (join directory name) = join directory name := by
  rw [join_eq_child h]
  have made : child (clean directory) name = _ := child_render (normal_stackOf directory.toList)
  have same := cleanChars_render (normal_entry h (normal_stackOf directory.toList))
  rw [made, clean, String.toList_ofList, same]

theorem child_injective {other : String} (h : child directory name = child directory other) :
    name = other := by
  unfold child at h
  split at h
  next => exact h
  next =>
    split at h
    next => simpa using h
    next => simpa using h

/-- `strings.TrimSuffix`. -/
def trimSuffix (text suffix : String) : String :=
  if suffix.toList <:+ text.toList then String.ofList (text.toList.take (text.toList.length - suffix.toList.length))
  else text

theorem trimSuffix_append {text suffix : String} (h : suffix.toList <:+ text.toList) :
    trimSuffix text suffix ++ suffix = text := by
  obtain ⟨stem, whole⟩ := h
  have short : text.toList.length - suffix.toList.length = stem.length := by
    rw [← whole, List.length_append]
    omega
  apply String.toList_inj.mp
  rw [trimSuffix, if_pos ⟨stem, whole⟩, String.toList_append, String.toList_ofList, short, ← whole, List.take_left]

theorem ext_suffix (path : String) : (ext path).toList <:+ path.toList := by
  unfold ext
  dsimp only
  split
  next dot =>
    generalize hb : path.toList.reverse.takeWhile (fun c => c ≠ '.' && c ≠ '/') = back at dot
    have front : back <+: path.toList.reverse := hb ▸ List.takeWhile_prefix _
    obtain ⟨rest, whole⟩ := front
    rw [← whole, List.getElem?_append_right (Nat.le_refl _), Nat.sub_self] at dot
    cases rest with
    | nil => cases dot
    | cons c rest =>
      simp only [List.getElem?_cons_zero, Option.some.injEq] at dot
      subst dot
      refine ⟨rest.reverse, ?_⟩
      have back_again := congrArg List.reverse whole
      simpa using back_again
  next => exact List.nil_suffix

end

end TermLinks.FilePath
