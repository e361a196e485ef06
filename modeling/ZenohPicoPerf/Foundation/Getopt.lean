import ZenohPicoPerf.Foundation.Memory

/-!
# getopt

The elements of `argv` behind the program's name are scanned from left to
right.  An element that begins with a `-` holds options: each character is
looked up in the option string, and one that takes an argument takes the rest
of the element or, if that is empty, the next element.  Operands are skipped,
and a lone `-` is one; if `POSIXLY_CORRECT` is set, the first one ends the
options.  The element `--` always does.

`getopt` is called until it returns `-1`.  What it returns on the way is the
list of items.

## Main results

* `scan_render` — options are read as they were written, one by one or several
  in an element, with operands and unknown letters anywhere between them.
* `setBy_switch`, `assign_lastArg` — a variable that one case of the `switch`
  sets ends with the last argument of that option.
-/

namespace ZenohPicoPerf.Foundation.Getopt

open ZenohPicoPerf.Foundation.Memory

def dash : Byte := 45

def colon : Byte := 58

inductive Kind where
  | flag
  | argument
deriving DecidableEq, Repr

/-- What the option string says of a character. -/
def kind (optstring : List Byte) (c : Byte) : Option Kind :=
  if c = colon then none
  else
    match optstring.dropWhile (· ≠ c) with
    | [] => none
    | _ :: next =>
        if next.head? = some colon then some .argument else some .flag

/-- An option with its `optarg`, or a `?` for the character. -/
inductive Item where
  | option (c : Byte) (optarg : Option (List Byte))
  | invalid (c : Byte)
deriving DecidableEq, Repr

/-- The characters of one element, and the option that still needs its
argument. -/
def cluster (optstring : List Byte) : List Byte → List Item × Option Byte
  | [] => ([], none)
  | c :: cs =>
      match kind optstring c with
      | none =>
          let more := cluster optstring cs
          (.invalid c :: more.1, more.2)
      | some .flag =>
          let more := cluster optstring cs
          (.option c none :: more.1, more.2)
      | some .argument =>
          if cs = [] then ([], some c) else ([.option c (some cs)], none)

/-- An element with options. -/
def isOptions : List Byte → Bool
  | d :: _ :: _ => d = dash
  | _ => false

/-- `posix` is whether `POSIXLY_CORRECT` is set, and `waiting` the option whose
argument is the next element. -/
def scan (posix : Bool) (optstring : List Byte) (waiting : Option Byte) :
    List (List Byte) → List Item
  | [] =>
      match waiting with
      | none => []
      | some c => [.invalid c]
  | e :: rest =>
      match waiting with
      | some c => .option c (some e) :: scan posix optstring none rest
      | none =>
          if e = [dash, dash] then []
          else if isOptions e then
            (cluster optstring e.tail).1 ++
              scan posix optstring (cluster optstring e.tail).2 rest
          else if posix then []
          else scan posix optstring none rest

/-! ## Spelling options -/

/-- A word of a command line as it is meant: letters that take no argument,
known or not, and behind them at most one option with its argument. -/
inductive Written where
  | letters (cs : List Byte)
  | attached (cs : List Byte) (c : Byte) (arg : List Byte)
  | detached (cs : List Byte) (c : Byte) (arg : List Byte)
  | operand (e : List Byte)
deriving DecidableEq, Repr

def Written.render : Written → List (List Byte)
  | .letters cs => [dash :: cs]
  | .attached cs c arg => [dash :: (cs ++ c :: arg)]
  | .detached cs c arg => [dash :: (cs ++ [c]), arg]
  | .operand e => [e]

/-- What is returned for a letter that takes no argument. -/
def letter (optstring : List Byte) (c : Byte) : Item :=
  if kind optstring c = some .flag then .option c none else .invalid c

def Written.items (optstring : List Byte) : Written → List Item
  | .letters cs => cs.map (letter optstring)
  | .attached cs c arg | .detached cs c arg =>
      cs.map (letter optstring) ++ [.option c (some arg)]
  | .operand _ => []

/-- None of the letters takes an argument. -/
def Letters (optstring cs : List Byte) : Prop :=
  ∀ c ∈ cs, kind optstring c ≠ some .argument

instance (optstring cs : List Byte) : Decidable (Letters optstring cs) :=
  inferInstanceAs (Decidable (∀ c ∈ cs, kind optstring c ≠ some .argument))

/-- The word can be written: an attached argument is not empty, nothing else
looks like the end of the options, and operands do not end them. -/
def Written.Valid (posix : Bool) (optstring : List Byte) : Written → Prop
  | .letters cs => Letters optstring cs ∧ cs ≠ [] ∧ cs ≠ [dash]
  | .attached cs c arg =>
      Letters optstring cs ∧ kind optstring c = some .argument ∧ arg ≠ []
  | .detached cs c _ =>
      Letters optstring cs ∧ kind optstring c = some .argument ∧
        cs ++ [c] ≠ [dash]
  | .operand e => posix = false ∧ isOptions e = false

instance (posix : Bool) (optstring : List Byte) (w : Written) :
    Decidable (w.Valid posix optstring) := by
  cases w <;> unfold Written.Valid <;> infer_instance

/-- Letters in front of the other characters of an element. -/
theorem cluster_letters {optstring cs : List Byte} (h : Letters optstring cs)
    (rest : List Byte) :
    cluster optstring (cs ++ rest) =
      (cs.map (letter optstring) ++ (cluster optstring rest).1,
        (cluster optstring rest).2) := by
  induction cs with
  | nil => rfl
  | cons c cs ih =>
      have htail := ih fun x hx => h x (by simp [hx])
      have hc := h c (by simp)
      rw [List.cons_append, cluster, List.map_cons, letter]
      cases hkind : kind optstring c with
      | none => simp [htail]
      | some k =>
          cases k with
          | flag => simp [htail]
          | argument => exact absurd hkind hc

theorem scan_options {posix : Bool} {optstring e : List Byte}
    {rest : List (List Byte)} (hne : e ≠ []) (hend : e ≠ [dash]) :
    scan posix optstring none ((dash :: e) :: rest) =
      (cluster optstring e).1 ++
        scan posix optstring (cluster optstring e).2 rest := by
  have hmore : dash :: e ≠ [dash, dash] := by
    intro heq
    exact hend (List.cons.inj heq).2
  have hoptions : isOptions (dash :: e) = true := by
    cases e with
    | nil => exact absurd rfl hne
    | cons c cs => simp [isOptions]
  rw [scan, if_neg hmore, if_pos hoptions, List.tail_cons]

theorem scan_written {posix : Bool} {optstring : List Byte} {w : Written}
    (h : w.Valid posix optstring) (rest : List (List Byte)) :
    scan posix optstring none (w.render ++ rest) =
      w.items optstring ++ scan posix optstring none rest := by
  cases w with
  | letters cs =>
      obtain ⟨hletters, hne, hend⟩ := h
      have hcluster := cluster_letters hletters []
      rw [List.append_nil] at hcluster
      rw [Written.render, List.singleton_append, scan_options hne hend,
        hcluster]
      simp [cluster, Written.items]
  | attached cs c arg =>
      obtain ⟨hletters, hkind, harg⟩ := h
      have hend : cs ++ c :: arg ≠ [dash] := by
        intro heq
        have hlength := congrArg List.length heq
        have hpos := List.length_pos_iff.mpr harg
        simp only [List.length_append, List.length_cons, List.length_nil]
          at hlength
        omega
      rw [Written.render, List.singleton_append,
        scan_options (by simp) hend, cluster_letters hletters]
      simp [cluster, hkind, harg, Written.items]
  | detached cs c arg =>
      obtain ⟨hletters, hkind, hend⟩ := h
      rw [Written.render, List.cons_append, scan_options (by simp) hend,
        cluster_letters hletters]
      simp [cluster, hkind, Written.items, scan]
  | operand e =>
      obtain ⟨rfl, hoperand⟩ := h
      have hend : e ≠ [dash, dash] := by
        rintro rfl
        cases hoperand
      rw [Written.render, List.singleton_append, scan, if_neg hend]
      simp [hoperand, Written.items]

/-- Written words are read back, in front of anything. -/
theorem scan_render {posix : Bool} {optstring : List Byte} {ws : List Written}
    (h : ∀ w ∈ ws, w.Valid posix optstring) (rest : List (List Byte)) :
    scan posix optstring none (ws.flatMap Written.render ++ rest) =
      ws.flatMap (Written.items optstring) ++
        scan posix optstring none rest := by
  induction ws with
  | nil => rfl
  | cons w ws ih =>
      have hhead := scan_written (h w (by simp))
        (ws.flatMap Written.render ++ rest)
      have htail := ih fun x hx => h x (by simp [hx])
      rw [List.flatMap_cons, List.append_assoc, hhead, htail,
        List.flatMap_cons, List.append_assoc]

/-! ## Setting variables -/

/-- The last argument of an option. -/
def lastArg (c : Byte) (items : List Item) : Option (List Byte) :=
  (items.filterMap fun i =>
    match i with
    | .option d (some arg) => if d = c then some arg else none
    | _ => none).getLast?

theorem lastArg_snoc (c : Byte) (items : List Item) (i : Item) :
    lastArg c (items ++ [i]) =
      match i with
      | .option d (some arg) => if d = c then some arg else lastArg c items
      | _ => lastArg c items := by
  unfold lastArg
  rw [List.filterMap_append]
  cases i with
  | invalid d => simp
  | option d optarg =>
      cases optarg with
      | none => simp
      | some arg => by_cases hd : d = c <;> simp [hd]

/-- Assign the arguments of options to the variables in `g`. -/
def assign {γ : Type*} (select : γ → Byte → List Byte → γ) (g : γ)
    (items : List Item) : γ :=
  items.foldl (fun g i =>
    match i with
    | .option c (some arg) => select g c arg
    | _ => g) g

/-- The variable `field` is set by the option `c` alone, to the converted
argument. -/
def SetBy {γ φ : Type*} (select : γ → Byte → List Byte → γ) (field : γ → φ)
    (c : Byte) (conv : List Byte → φ) : Prop :=
  ∀ g d arg, field (select g d arg) = if d = c then conv arg else field g

/-- Such a variable ends with the last argument of its option. -/
theorem assign_lastArg {γ φ : Type*} {select : γ → Byte → List Byte → γ}
    {field : γ → φ} {c : Byte} {conv : List Byte → φ}
    (h : SetBy select field c conv) (g : γ) (items : List Item) :
    field (assign select g items) =
      ((lastArg c items).map conv).getD (field g) := by
  unfold assign
  induction items using List.reverseRecOn with
  | nil => rfl
  | append_singleton items i ih =>
      rw [List.foldl_append, List.foldl_cons, List.foldl_nil, lastArg_snoc]
      cases i with
      | invalid d => exact ih
      | option d optarg =>
          cases optarg with
          | none => exact ih
          | some arg =>
              dsimp only
              rw [h]
              by_cases hd : d = c
              · simp [hd]
              · rw [if_neg hd, if_neg hd]
                exact ih

/-- `switch (c)` with a case for each of some options, by what the case assigns;
the default does nothing. -/
def switch {γ : Type*} (cases : List (Byte × (γ → List Byte → γ))) (g : γ)
    (c : Byte) (optarg : List Byte) : γ :=
  match cases.find? fun p => p.1 = c with
  | some p => p.2 g optarg
  | none => g

/-- The case of `c` sets the variable, and the other ones leave it alone. -/
theorem setBy_switch {γ φ : Type*}
    {cases : List (Byte × (γ → List Byte → γ))} {field : γ → φ} {c : Byte}
    {conv : List Byte → φ}
    (h : ∀ p ∈ cases, ∀ g v,
      field (p.2 g v) = if p.1 = c then conv v else field g)
    (hc : c ∈ cases.map Prod.fst) : SetBy (switch cases) field c conv := by
  intro g d arg
  unfold switch
  cases hfind : cases.find? fun p => p.1 = d with
  | some p =>
      have hd : p.1 = d := by simpa using List.find?_some hfind
      rw [← hd]
      exact h p (List.mem_of_find?_eq_some hfind) g arg
  | none =>
      have hne : d ≠ c := by
        rintro rfl
        obtain ⟨p, hp, rfl⟩ := List.mem_map.mp hc
        simpa using List.find?_eq_none.mp hfind p hp
      rw [if_neg hne]

/-- A text that starts as a null pointer. -/
theorem assign_text {γ : Type*} {select : γ → Byte → List Byte → γ}
    {field : γ → Option (List Byte)} {c : Byte}
    (h : SetBy select field c some) {g : γ} (hg : field g = none)
    (items : List Item) : field (assign select g items) = lastArg c items := by
  rw [assign_lastArg h, hg]
  cases lastArg c items <;> rfl

end ZenohPicoPerf.Foundation.Getopt
