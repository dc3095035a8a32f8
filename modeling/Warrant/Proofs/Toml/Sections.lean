import Warrant.Config.Reader

/-!
# The order of the sections of a document

A section changes what the first name of its header stands for, by what that stood for before, and
nothing else (`addSection?_onlyAt`). So two neighbouring sections whose headers begin with different
names may change places, and the document describes the same configuration (`described?_swap`).
-/

namespace Warrant

namespace Toml

namespace Entries

variable {es : Entries} {k x : String} {n m : Node}

/-! ### What the keys of a table stand for -/

theorem get?_cons : get? ((x, m) :: es) k = if x = k then some m else es.get? k := by
  unfold get?
  by_cases hx : x = k
  · simp [hx]
  · simp [hx]

theorem get?_add (h : es.get? k = none) :
    (es.add k n).get? x = if x = k then some n else es.get? x := by
  unfold add
  induction es with
  | nil =>
    rw [List.nil_append, get?_cons]
    simp only [eq_comm]
  | cons e es ih =>
    obtain ⟨y, m⟩ := e
    rw [get?_cons] at h
    split at h
    · cases h
    · rename_i hy
      rw [List.cons_append, get?_cons, ih h, get?_cons]
      grind

theorem get?_set :
    (es.set k n).get? x = if x = k then (es.get? k).map fun _ => n else es.get? x := by
  induction es with
  | nil => split <;> rfl
  | cons e es ih =>
    obtain ⟨y, m⟩ := e
    have hset : set ((y, m) :: es) k n = (if y = k then (k, n) else (y, m)) :: set es k n := rfl
    rw [hset]
    split <;> grind [get?_cons]

/-- Says what a key stands for, be it there or not. -/
def put (es : Entries) (k : String) (n : Node) : Entries :=
  match es.get? k with
  | none => es.add k n
  | some _ => es.set k n

theorem put_of_none (h : es.get? k = none) : es.put k n = es.add k n := by
  rw [put, h]

theorem put_of_some (h : es.get? k = some m) : es.put k n = es.set k n := by
  rw [put, h]

theorem get?_put : (es.put k n).get? x = if x = k then some n else es.get? x := by
  cases h : es.get? k with
  | none => rw [put_of_none h, get?_add h]
  | some m =>
    rw [put_of_some h, get?_set, h]
    rfl

/-! ### What a section changes -/

/-- A change that depends on what one key stands for, and says what it stands for then. -/
def OnlyAt (k : String) (change : Entries → Option Entries) : Prop :=
  ∀ node, ∃ result : Option Node, ∀ es, es.get? k = node → change es = result.map (es.put k)

theorem within?_onlyAt (inKey : Bool) (change : Origin → Entries → Option Entries)
    (origin : Origin) (path : List String) :
    OnlyAt k (within? inKey change origin (k :: path)) := by
  intro node
  cases node with
  | none =>
    let made : Origin := if inKey then .dotted else .implied
    refine ⟨(within? inKey change made path []).map (.table made), fun es hes => ?_⟩
    rw [within?, hes]
    simp only [← put_of_none hes]
    cases within? inKey change made path [] <;> rfl
  | some node =>
    cases node with
    | value v => exact ⟨none, fun es hes => by rw [within?, hes]; rfl⟩
    | table o inner =>
      by_cases ho : (inKey && o = .header) = true
      · exact ⟨none, fun es hes => by rw [within?, hes]; exact if_pos ho⟩
      · refine ⟨(within? inKey change o path inner).map (.table o), fun es hes => ?_⟩
        rw [within?, hes]
        simp only [← put_of_some hes, if_neg ho]
        cases within? inKey change o path inner <;> rfl
    | tables items =>
      refine ⟨items.getLast?.bind fun inner => (within? inKey change .header path inner).map
        fun es => .tables (items.dropLast ++ [es]), fun es hes => ?_⟩
      rw [within?, hes]
      simp only [← put_of_some hes]
      cases items.getLast? with
      | none => rfl
      | some inner =>
        dsimp only [Option.bind_eq_bind, Option.bind_some]
        cases within? inKey change .header path inner <;> rfl

end Entries

def Statement.first : Statement → String
  | tableHeader k | itemHeader k | pair k _ => (k.parents ++ [k.last]).head (by simp)

open Entries

theorem table?_onlyAt (k : Key) (ps : List (Key × Value)) :
    OnlyAt (Statement.tableHeader k).first (Entries.table? · k ps) := by
  obtain ⟨parents, last⟩ := k
  cases parents with
  | cons name path => exact within?_onlyAt false _ .header path
  | nil =>
    show OnlyAt last _
    intro node
    match node with
    | none =>
      refine ⟨(pairs? [] ps).map (.table .header), fun es hes => ?_⟩
      simp only [Entries.table?, within?, hes, ← put_of_none hes]
      cases pairs? [] ps <;> rfl
    | some (.table .implied inner) =>
      refine ⟨(pairs? inner ps).map (.table .header), fun es hes => ?_⟩
      simp only [Entries.table?, within?, hes, ← put_of_some hes]
      cases pairs? inner ps <;> rfl
    | some (.table .header inner) | some (.table .dotted inner) | some (.value v)
    | some (.tables items) =>
      exact ⟨none, fun es hes => by simp only [Entries.table?, within?, hes]; rfl⟩

theorem item?_onlyAt (k : Key) (ps : List (Key × Value)) :
    OnlyAt (Statement.itemHeader k).first (Entries.item? · k ps) := by
  obtain ⟨parents, last⟩ := k
  cases parents with
  | cons name path => exact within?_onlyAt false _ .header path
  | nil =>
    show OnlyAt last _
    intro node
    match node with
    | none =>
      refine ⟨(pairs? [] ps).map fun item => .tables [item], fun es hes => ?_⟩
      simp only [Entries.item?, within?, hes, ← put_of_none hes]
      cases pairs? [] ps <;> rfl
    | some (.tables items) =>
      refine ⟨(pairs? [] ps).map fun item => .tables (items ++ [item]), fun es hes => ?_⟩
      simp only [Entries.item?, within?, hes, ← put_of_some hes]
      cases pairs? [] ps <;> rfl
    | some (.table o inner) | some (.value v) =>
      exact ⟨none, fun es hes => by simp only [Entries.item?, within?, hes]; rfl⟩

theorem addSection?_onlyAt (s : Statement × List (Key × Value)) :
    OnlyAt s.1.first (addSection? · s) := by
  obtain ⟨header, ps⟩ := s
  cases header with
  | tableHeader k => exact table?_onlyAt k ps
  | itemHeader k => exact item?_onlyAt k ps
  | pair k v => exact fun _ => ⟨none, fun _ _ => rfl⟩

/-! ### Sections that change places -/

/-- Two results in which each key stands for the same. -/
def SameKeys : Option Entries → Option Entries → Prop
  | some es, some es' => ∀ k, es.get? k = es'.get? k
  | none, none => True
  | _, _ => False

theorem SameKeys.of_onlyAt {k : String} {change : Entries → Option Entries} {es es' : Entries}
    (h : OnlyAt k change) (hsame : ∀ k, es.get? k = es'.get? k) :
    SameKeys (change es) (change es') := by
  obtain ⟨result, hresult⟩ := h (es.get? k)
  rw [hresult es rfl, hresult es' (hsame k).symm]
  cases result with
  | none => exact trivial
  | some n => exact fun x => by rw [get?_put, get?_put, hsame x]

/-- Changes of different keys may be made in either order. -/
theorem SameKeys.of_swap {a b : String} {change change' : Entries → Option Entries}
    (ha : OnlyAt a change) (hb : OnlyAt b change') (hab : a ≠ b) (es : Entries) :
    SameKeys (change es >>= change') (change' es >>= change) := by
  obtain ⟨result, hresult⟩ := ha (es.get? a)
  obtain ⟨result', hresult'⟩ := hb (es.get? b)
  rw [hresult es rfl, hresult' es rfl]
  cases result with
  | none =>
    cases result' with
    | none => exact trivial
    | some m =>
      have hrest := hresult (es.put b m) (by rw [get?_put, if_neg hab])
      exact (congrArg (SameKeys none) hrest).mpr trivial
  | some n =>
    have hrest' := hresult' (es.put a n) (by rw [get?_put, if_neg hab.symm])
    cases result' with
    | none => exact (congrArg (SameKeys · none) hrest').mpr trivial
    | some m =>
      have hrest := hresult (es.put b m) (by rw [get?_put, if_neg hab])
      show SameKeys (change' (es.put a n)) (change (es.put b m))
      rw [hrest, hrest']
      intro x
      simp only [get?_put]
      by_cases hx : x = a
      · subst hx
        simp [hab]
      · simp [hx]

theorem SameKeys.bind {k : String} {change : Entries → Option Entries} {es es' : Option Entries}
    (h : SameKeys es es') (hchange : OnlyAt k change) :
    SameKeys (es >>= change) (es' >>= change) := by
  match es, es', h with
  | none, none, _ => exact trivial
  | some es, some es', h => exact .of_onlyAt hchange h

theorem SameKeys.foldlM {es es' : Option Entries} (h : SameKeys es es')
    (later : List (Statement × List (Key × Value))) :
    SameKeys (es >>= later.foldlM addSection?) (es' >>= later.foldlM addSection?) := by
  induction later generalizing es es' with
  | nil => simpa using h
  | cons s rest ih =>
    have hstep : ∀ es : Option Entries, es >>= (s :: rest).foldlM addSection? =
        (es >>= (addSection? · s)) >>= rest.foldlM addSection? := fun es => by
      rw [bind_assoc]
      rfl
    rw [hstep, hstep]
    exact ih (h.bind (addSection?_onlyAt s))

/-- Two neighbouring sections that begin with different names may change places. -/
theorem foldlM_addSection?_swap {x y : Statement × List (Key × Value)}
    (hxy : x.1.first ≠ y.1.first) (es : Option Entries)
    (before later : List (Statement × List (Key × Value))) :
    SameKeys (es >>= (before ++ x :: y :: later).foldlM addSection?)
      (es >>= (before ++ y :: x :: later).foldlM addSection?) := by
  have hsplit : ∀ x y : Statement × List (Key × Value),
      es >>= (before ++ x :: y :: later).foldlM addSection? =
        (es >>= fun es => before.foldlM addSection? es >>= fun es =>
          addSection? es x >>= (addSection? · y)) >>= later.foldlM addSection? := fun x y => by
    simp only [List.foldlM_append, List.foldlM_cons, bind_assoc]
  rw [hsplit, hsplit]
  refine SameKeys.foldlM ?_ later
  cases es with
  | none => exact trivial
  | some es =>
    show SameKeys (before.foldlM addSection? es >>= _) (before.foldlM addSection? es >>= _)
    cases before.foldlM addSection? es with
    | none => exact trivial
    | some es => exact .of_swap (addSection?_onlyAt x) (addSection?_onlyAt y) hxy es

end Toml

/-! ### What a document describes -/

namespace Config

open Toml

/-- The statements of a text, without its byte order mark. -/
def statementsOf? (text : String) : Option (List Statement) :=
  let cs := match text.toList with
    | '\ufeff' :: cs => cs
    | cs => cs
  statements? (cs.length + 1) cs

def described? (statements : List Statement) : Option Config := do
  ofToml? (.table (← assemble? statements))

theorem read?_eq (text : String) : read? text = statementsOf? text >>= described? := by
  unfold read? parse? described?
  exact bind_assoc _ _ _

theorem find?_entryValues (es : Entries) (name : String) :
    ((entryValues es).find? fun e => e.1 = name).map (·.2) = (es.get? name).map Node.toValue := by
  induction es with
  | nil => rfl
  | cons e es ih =>
    obtain ⟨k, n⟩ := e
    rw [entryValues, List.find?_cons, Entries.get?_cons]
    by_cases hk : k = name
    · simp [hk]
    · simpa [hk] using ih

theorem ofToml?_of_sameKeys {es es' : Option Entries} (h : SameKeys es es') :
    (es >>= fun root => ofToml? (.table (entryValues root))) =
      es' >>= fun root => ofToml? (.table (entryValues root)) := by
  match es, es', h with
  | none, none, _ => rfl
  | some es, some es', h =>
    simp only [Option.bind_eq_bind, Option.bind_some, ofToml?, slots?, find?_entryValues, h _]

/-- The documents differ in which of two neighbouring sections, whose headers begin with different
names, comes first. -/
def Swapped (statements swapped : List Statement) : Prop :=
  ∃ top before later x y, x.1.first ≠ y.1.first ∧
    sections statements = (top, before ++ x :: y :: later) ∧
      sections swapped = (top, before ++ y :: x :: later)

/-- Where a section stands among those of other names makes no difference. -/
theorem described?_swap {statements swapped : List Statement} (h : Swapped statements swapped) :
    described? statements = described? swapped := by
  obtain ⟨top, before, later, x, y, hxy, hstatements, hswapped⟩ := h
  have hdescribed : ∀ {statements : List Statement} {rest : List (Statement × List (Key × Value))},
      sections statements = (top, rest) → described? statements =
        (Entries.pairs? [] top >>= rest.foldlM addSection?) >>= fun root =>
          ofToml? (.table (entryValues root)) := by
    intro statements rest h
    simp only [described?, assemble?, h, bind_assoc, pure_bind]
  rw [hdescribed hstatements, hdescribed hswapped]
  exact ofToml?_of_sameKeys (foldlM_addSection?_swap hxy (Entries.pairs? [] top) before later)

end Config

end Warrant
