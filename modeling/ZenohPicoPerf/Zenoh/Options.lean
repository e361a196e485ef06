import ZenohPicoPerf.Foundation.Getopt
import ZenohPicoPerf.Common.Clock

/-!
# The option loops of the zenoh programs

z_pub_thr, z_sub_thr, z_ping_lat and z_pong_lat read their arguments with
`getopt`.  `-h` prints the usage and exits at once; unknown options are
skipped; afterwards the program exits unless it has a locator.  A size that is
no `int` is left open, as `none`.

## Main results

* `optionLoop_eq` — the loop as an assignment of last arguments.
* `programs_main` — what each program does with any command line.
* `options_order_irrelevant` — spelling and order of options do not matter.
-/

namespace ZenohPicoPerf.Zenoh.Options

open ZenohPicoPerf.Foundation.Memory
open ZenohPicoPerf.Foundation.Getopt
open ZenohPicoPerf.Common.Clock

/-! ## The shared skeleton -/

/-- A program with the globals `γ`. -/
structure Program (γ : Type) where
  optstring : List Byte
  init : γ
  select : γ → Byte → List Byte → γ
  locator : γ → Option (List Byte)

/-- What happens before the session is opened. -/
inductive Outcome (γ : Type) where
  | usage
  | noLocator
  | started (g : γ)
deriving DecidableEq, Repr

/-- `'h'` -/
def help : Byte := 104

section Skeleton

variable {γ : Type} (P : Program γ)

/-- `while((c = getopt(…)) != -1) switch (c)`; `none` is the exit behind the
usage. -/
def optionLoop (g : γ) : List Item → Option γ
  | [] => some g
  | .invalid _ :: rest => optionLoop g rest
  | .option c optarg :: rest =>
      if c = help then none
      else
        match optarg with
        | some arg => optionLoop (P.select g c arg) rest
        | none => optionLoop g rest

/-- `posix` is whether `POSIXLY_CORRECT` is in the environment. -/
def main (posix : Bool) (args : List (List Byte)) : Outcome γ :=
  match optionLoop P P.init (scan posix P.optstring none args) with
  | none => .usage
  | some g => if P.locator g = none then .noLocator else .started g

/-- `-h` is among the options. -/
def asksHelp (items : List Item) : Bool :=
  items.any fun i =>
    match i with
    | .option c _ => c = help
    | .invalid _ => false

/-- What `main` does with the settings that `items` make, of which option `e`
sets the locator. -/
def outcome (settings : List Item → γ) (items : List Item) : Outcome γ :=
  if asksHelp items then .usage
  else if lastArg 101 items = none then .noLocator
  else .started (settings items)

variable {P}

/-- `-h` ends the loop, and without it the loop assigns. -/
theorem optionLoop_eq (g : γ) (items : List Item) :
    optionLoop P g items =
      if asksHelp items then none else some (assign P.select g items) := by
  induction items generalizing g with
  | nil => rfl
  | cons i rest ih =>
      cases i with
      | invalid c => exact ih g
      | option c optarg =>
          by_cases hc : c = help
          · simp [optionLoop, asksHelp, hc]
          · have hask : asksHelp (.option c optarg :: rest) =
                asksHelp rest := by
              simp [asksHelp, hc]
            simp only [optionLoop, if_neg hc, hask]
            cases optarg with
            | none => exact ih g
            | some arg => exact ih (P.select g c arg)

theorem main_eq {settings : List Item → γ}
    (hassign : ∀ items, assign P.select P.init items = settings items)
    (hlocator : ∀ items, P.locator (settings items) = lastArg 101 items)
    (posix : Bool) (args : List (List Byte)) :
    main P posix args =
      outcome settings (scan posix P.optstring none args) := by
  unfold main outcome
  rw [optionLoop_eq, hassign]
  by_cases hask : asksHelp (scan posix P.optstring none args) = true
  · rw [if_pos hask, if_pos hask]
  · rw [if_neg hask, if_neg hask, ← hlocator]

/-- Two command lines are alike to a program if each option has the same last
argument in both, and `-h` is in both or in neither. -/
def Alike (optstring : List Byte) (ws ws' : List Written) : Prop :=
  (∀ c, lastArg c (ws.flatMap (Written.items optstring)) =
    lastArg c (ws'.flatMap (Written.items optstring))) ∧
  asksHelp (ws.flatMap (Written.items optstring)) =
    asksHelp (ws'.flatMap (Written.items optstring))

/-- A program does the same on all command lines that are alike to it. -/
def Insensitive (P : Program γ) : Prop :=
  ∀ (posix : Bool) (ws ws' : List Written),
    (∀ w ∈ ws, w.Valid posix P.optstring) →
    (∀ w ∈ ws', w.Valid posix P.optstring) → Alike P.optstring ws ws' →
    main P posix (ws.flatMap Written.render) =
      main P posix (ws'.flatMap Written.render)

theorem insensitive_of {settings : List Item → γ}
    (hmain : ∀ posix args, main P posix args =
      outcome settings (scan posix P.optstring none args))
    (hsettings : ∀ items items', (∀ c, lastArg c items = lastArg c items') →
      settings items = settings items') : Insensitive P := by
  intro posix ws ws' hws hws' ⟨hlast, hhelp⟩
  have hscan : ∀ vs : List Written, (∀ v ∈ vs, v.Valid posix P.optstring) →
      scan posix P.optstring none (vs.flatMap Written.render) =
        vs.flatMap (Written.items P.optstring) := by
    intro vs hvs
    have hrender := scan_render hvs []
    rwa [List.append_nil, scan, List.append_nil] at hrender
  rw [hmain, hmain, hscan ws hws, hscan ws' hws']
  unfold outcome
  rw [hhelp, hlast, hsettings _ _ hlast]

end Skeleton

/-! ## The four programs -/

/-- The value of a `char *` that starts as a null pointer. -/
abbrev Text := Option (List Byte)

namespace ZPubThr

@[ext]
structure Globals where
  scenario : Text
  payloadSize : Option CInt
  locator : Text
  mode : List Byte
deriving DecidableEq, Repr

/-- The cases of the `switch`. -/
def options : List (Byte × (Globals → List Byte → Globals)) :=
  [(115, fun g optarg => { g with scenario := some optarg }),
    (112, fun g optarg => { g with payloadSize := intArgument optarg }),
    (101, fun g optarg => { g with locator := some optarg }),
    (109, fun g optarg => { g with mode := optarg })]

def program : Program Globals :=
  { optstring := literal "s:p:e:m:h"
    init := { scenario := none, payloadSize := some 8, locator := none,
              mode := literal "client" }
    select := switch options
    locator := Globals.locator }

/-- The globals behind the loop. -/
def settings (items : List Item) : Globals :=
  { scenario := lastArg 115 items
    payloadSize := ((lastArg 112 items).map intArgument).getD (some 8)
    locator := lastArg 101 items
    mode := (lastArg 109 items).getD (literal "client") }

end ZPubThr

namespace ZSubThr

@[ext]
structure Globals where
  scenario : Text
  locator : Text
  mode : List Byte
deriving DecidableEq, Repr

/-- The cases of the `switch`. -/
def options : List (Byte × (Globals → List Byte → Globals)) :=
  [(115, fun g optarg => { g with scenario := some optarg }),
    (101, fun g optarg => { g with locator := some optarg }),
    (109, fun g optarg => { g with mode := optarg })]

def program : Program Globals :=
  { optstring := literal "s:e:m:h"
    init := { scenario := none, locator := none, mode := literal "client" }
    select := switch options
    locator := Globals.locator }

def settings (items : List Item) : Globals :=
  { scenario := lastArg 115 items
    locator := lastArg 101 items
    mode := (lastArg 109 items).getD (literal "client") }

end ZSubThr

namespace ZPingLat

/-- `atoi` assigned to a `size_t`. -/
def sizeOption (optarg : List Byte) : Option Word :=
  (intArgument optarg).map CInt.toWord

/-- `interval` is the text that `atof` converts. -/
@[ext]
structure Globals where
  scenario : Text
  mode : List Byte
  locator : Text
  payloadSize : Option Word
  interval : Text
deriving DecidableEq, Repr

/-- The cases of the `switch`. -/
def options : List (Byte × (Globals → List Byte → Globals)) :=
  [(115, fun g optarg => { g with scenario := some optarg }),
    (101, fun g optarg => { g with locator := some optarg }),
    (109, fun g optarg => { g with mode := optarg }),
    (112, fun g optarg => { g with payloadSize := sizeOption optarg }),
    (105, fun g optarg => { g with interval := some optarg })]

def program : Program Globals :=
  { optstring := literal "s:e:m:p:i:h"
    init := { scenario := none, mode := literal "client", locator := none,
              payloadSize := some 64, interval := none }
    select := switch options
    locator := Globals.locator }

def settings (items : List Item) : Globals :=
  { scenario := lastArg 115 items
    mode := (lastArg 109 items).getD (literal "client")
    locator := lastArg 101 items
    payloadSize := ((lastArg 112 items).map sizeOption).getD (some 64)
    interval := lastArg 105 items }

end ZPingLat

namespace ZPongLat

@[ext]
structure Globals where
  mode : List Byte
  locator : Text
deriving DecidableEq, Repr

/-- The cases of the `switch`. -/
def options : List (Byte × (Globals → List Byte → Globals)) :=
  [(101, fun g optarg => { g with locator := some optarg }),
    (109, fun g optarg => { g with mode := optarg })]

def program : Program Globals :=
  { optstring := literal "e:m:h"
    init := { mode := literal "client", locator := none }
    select := switch options
    locator := Globals.locator }

def settings (items : List Item) : Globals :=
  { mode := (lastArg 109 items).getD (literal "client")
    locator := lastArg 101 items }

end ZPongLat

/-! ## What the loops assign -/

theorem zPubThr_assign (items : List Item) :
    assign (switch ZPubThr.options) ZPubThr.program.init items =
      ZPubThr.settings items := by
  have hscenario : SetBy (switch ZPubThr.options) ZPubThr.Globals.scenario 115
      some :=
    setBy_switch (by simp [ZPubThr.options]) (by simp [ZPubThr.options])
  have hpayloadSize :
      SetBy (switch ZPubThr.options) ZPubThr.Globals.payloadSize 112
        intArgument :=
    setBy_switch (by simp [ZPubThr.options]) (by simp [ZPubThr.options])
  have hlocator : SetBy (switch ZPubThr.options) ZPubThr.Globals.locator 101
      some :=
    setBy_switch (by simp [ZPubThr.options]) (by simp [ZPubThr.options])
  have hmode : SetBy (switch ZPubThr.options) ZPubThr.Globals.mode 109
      id :=
    setBy_switch (by simp [ZPubThr.options]) (by simp [ZPubThr.options])
  apply ZPubThr.Globals.ext
  · exact assign_text hscenario rfl items
  · exact assign_lastArg hpayloadSize _ items
  · exact assign_text hlocator rfl items
  · rw [assign_lastArg hmode, Option.map_id]
    rfl

theorem zSubThr_assign (items : List Item) :
    assign (switch ZSubThr.options) ZSubThr.program.init items =
      ZSubThr.settings items := by
  have hscenario : SetBy (switch ZSubThr.options) ZSubThr.Globals.scenario 115
      some :=
    setBy_switch (by simp [ZSubThr.options]) (by simp [ZSubThr.options])
  have hlocator : SetBy (switch ZSubThr.options) ZSubThr.Globals.locator 101
      some :=
    setBy_switch (by simp [ZSubThr.options]) (by simp [ZSubThr.options])
  have hmode : SetBy (switch ZSubThr.options) ZSubThr.Globals.mode 109
      id :=
    setBy_switch (by simp [ZSubThr.options]) (by simp [ZSubThr.options])
  apply ZSubThr.Globals.ext
  · exact assign_text hscenario rfl items
  · exact assign_text hlocator rfl items
  · rw [assign_lastArg hmode, Option.map_id]
    rfl

theorem zPingLat_assign (items : List Item) :
    assign (switch ZPingLat.options) ZPingLat.program.init items =
      ZPingLat.settings items := by
  have hscenario : SetBy (switch ZPingLat.options) ZPingLat.Globals.scenario 115
      some :=
    setBy_switch (by simp [ZPingLat.options]) (by simp [ZPingLat.options])
  have hmode : SetBy (switch ZPingLat.options) ZPingLat.Globals.mode 109
      id :=
    setBy_switch (by simp [ZPingLat.options]) (by simp [ZPingLat.options])
  have hlocator : SetBy (switch ZPingLat.options) ZPingLat.Globals.locator 101
      some :=
    setBy_switch (by simp [ZPingLat.options]) (by simp [ZPingLat.options])
  have hpayloadSize :
      SetBy (switch ZPingLat.options) ZPingLat.Globals.payloadSize 112
        ZPingLat.sizeOption :=
    setBy_switch (by simp [ZPingLat.options]) (by simp [ZPingLat.options])
  have hinterval : SetBy (switch ZPingLat.options) ZPingLat.Globals.interval 105
      some :=
    setBy_switch (by simp [ZPingLat.options]) (by simp [ZPingLat.options])
  apply ZPingLat.Globals.ext
  · exact assign_text hscenario rfl items
  · rw [assign_lastArg hmode, Option.map_id]
    rfl
  · exact assign_text hlocator rfl items
  · exact assign_lastArg hpayloadSize _ items
  · exact assign_text hinterval rfl items

theorem zPongLat_assign (items : List Item) :
    assign (switch ZPongLat.options) ZPongLat.program.init items =
      ZPongLat.settings items := by
  have hmode : SetBy (switch ZPongLat.options) ZPongLat.Globals.mode 109
      id :=
    setBy_switch (by simp [ZPongLat.options]) (by simp [ZPongLat.options])
  have hlocator : SetBy (switch ZPongLat.options) ZPongLat.Globals.locator 101
      some :=
    setBy_switch (by simp [ZPongLat.options]) (by simp [ZPongLat.options])
  apply ZPongLat.Globals.ext
  · rw [assign_lastArg hmode, Option.map_id]
    rfl
  · exact assign_text hlocator rfl items

/-! ## Command lines -/

/-- **The four option loops.**  For every command line, each program prints the
usage if `-h` is among its options, gives up if there is no locator, and
otherwise starts with the last argument of each option, or its default. -/
theorem programs_main (posix : Bool) (args : List (List Byte)) :
    main ZPubThr.program posix args =
        outcome ZPubThr.settings (scan posix (literal "s:p:e:m:h") none args) ∧
      main ZSubThr.program posix args =
        outcome ZSubThr.settings (scan posix (literal "s:e:m:h") none args) ∧
      main ZPingLat.program posix args =
        outcome ZPingLat.settings
          (scan posix (literal "s:e:m:p:i:h") none args) ∧
      main ZPongLat.program posix args =
        outcome ZPongLat.settings (scan posix (literal "e:m:h") none args) :=
  ⟨main_eq zPubThr_assign (fun _ => rfl) posix args,
    main_eq zSubThr_assign (fun _ => rfl) posix args,
    main_eq zPingLat_assign (fun _ => rfl) posix args,
    main_eq zPongLat_assign (fun _ => rfl) posix args⟩

/-- **Spelling and order do not matter.**  Each program does the same on two
command lines if each option has the same last argument in both, and `-h` is
in both or in neither: wherever the options stand, whether several stand in
one element, whether arguments are attached or not, and whatever operands and
unknown options are in between. -/
theorem options_order_irrelevant :
    Insensitive ZPubThr.program ∧ Insensitive ZSubThr.program ∧
      Insensitive ZPingLat.program ∧ Insensitive ZPongLat.program := by
  refine ⟨insensitive_of (main_eq zPubThr_assign fun _ => rfl) ?_,
    insensitive_of (main_eq zSubThr_assign fun _ => rfl) ?_,
    insensitive_of (main_eq zPingLat_assign fun _ => rfl) ?_,
    insensitive_of (main_eq zPongLat_assign fun _ => rfl) ?_⟩
  · intro items items' h
    simp only [ZPubThr.settings, h]
  · intro items items' h
    simp only [ZSubThr.settings, h]
  · intro items items' h
    simp only [ZPingLat.settings, h]
  · intro items items' h
    simp only [ZPongLat.settings, h]

example : main ZPubThr.program false (List.map literal
    ["-e", "tcp/a", "file", "-p16", "-x", "-etcp/b", "--", "-h"]) =
    .started {
      scenario := none
      payloadSize := some 16
      locator := some (literal "tcp/b")
      mode := literal "client"
    } := by
  decide

end ZenohPicoPerf.Zenoh.Options
