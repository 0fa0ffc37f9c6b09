import Breakin.Foundation.Shell
import Breakin.Foundation.Words
import Breakin.Scheduler.Identity
import Breakin.Scheduler.Settings

/-!
# Startup

`startup.sh` turns the variables that the kernel command line leaves in the
environment into options, puts them into one string, and starts `breakin` with the
words of that string.
-/

namespace Breakin
namespace Scripts

open Foundation
open Foundation.Shell
open Scheduler

/-- `_update_interval`, `_update_url`, `_sshpasswd`, `_breakin_disable`, `_console`
and `CONSOLE`; a variable that is not set is empty. -/
structure StartupEnv where
  updateInterval : CString
  updateUrl : CString
  sshpasswd : CString
  breakinDisable : CString
  console : CString
  consoleVar : CString
deriving DecidableEq

/-- The variables of the script, and what `exec` has started. -/
structure StartupVars extends StartupEnv where
  args : CString
  port : CString
  baud : CString
  started : Option (List CString)

section Startup

-- pathname expansion of a word, in the directory the script runs in
variable (glob : CString -> List CString)

def expansion (text : CString) : List CString :=
  (words text).flatMap glob

/-- `echo ${CONSOLE} | cut -d"," -fn` -/
def consoleField (n : Nat) (v : StartupVars) : CString :=
  cutField ',' n (unwords (expansion glob v.consoleVar))

def startup : Command StartupVars :=
  block
    [assign fun v => { v with args := "-b".toList },
      ifThen (fun s => s.vars.updateInterval != [])
        (assign fun v =>
          { v with
            args := v.args ++ " --update_interval ".toList ++ v.updateInterval }),
      ifThen (fun s => s.vars.updateUrl != [])
        (assign fun v =>
          { v with args := v.args ++ " --update_url ".toList ++ v.updateUrl }),
      ifThen (fun s => s.vars.sshpasswd != [])
        (assign fun v => { v with args := v.args ++ " --ssh".toList }),
      ifThen (fun s => s.vars.breakinDisable != [])
        (assign fun v =>
          { v with
            args := v.args ++ " --disable_test ".toList ++ v.breakinDisable }),
      ifThen (fun s => s.vars.console != [])
        (block
          [assign fun v => { v with port := consoleField glob 1 v },
            assign fun v => { v with baud := consoleField glob 2 v },
            ifThen (fun s => s.vars.port == "ttyS0".toList)
              (assign fun v =>
                { v with
                  args := v.args ++ " --serialdev=/dev/".toList ++ v.port ++
                    " --baud=".toList ++ v.baud })]),
      assign fun v => { v with started := some (expansion glob v.args) }]

def startupStart (env : StartupEnv) : ShState StartupVars where
  vars := { env with args := [], port := [], baud := [], started := none }
  status := 0
  out := []

/-- The words that `breakin` is started with, behind its name. -/
def startupArgv (env : StartupEnv) : List CString :=
  ((startup glob (startupStart env)).final.vars.started).getD []

/-!
# What the variables ask for
-/

structure PlainWord (word : CString) : Prop extends IsField word where
  noPattern : forall c, c ∈ word -> c ∉ "*?[\\".toList

/-- The variables that the script expands without quotes are plain words. -/
def StartupEnv.Plain (env : StartupEnv) : Prop :=
  forall text, text ∈ [env.updateInterval, env.updateUrl, env.breakinDisable,
    env.consoleVar] -> text = [] ∨ PlainWord text

def StartupEnv.serial (env : StartupEnv) : Bool :=
  env.console != [] && cutField ',' 1 env.consoleVar == "ttyS0".toList

def StartupEnv.settings (env : StartupEnv) : Settings where
  updateUrl := snprintf TEXT_SIZE env.updateUrl
  updateInterval :=
    if env.updateInterval = [] then DEFAULT_UPDATE_INTERVAL
    else intervalOf env.updateInterval
  enableUpdates := env.updateUrl != []
  serialEnabled := env.serial
  serialBaud :=
    if env.serial then atoi (cutField ',' 2 env.consoleVar) else 115200
  serialDev := if env.serial then "/dev/ttyS0".toList else []
  breakinDisable := snprintf DISABLE_SIZE env.breakinDisable
  enableBenchmarks := false
  enabledSsh := env.sshpasswd != []

/-!
# The string of options
-/

variable {glob} {env : StartupEnv}

structure Stands (env : StartupEnv) (options : List Returned)
    (s : ShState StartupVars) : Prop where
  env : s.vars.toStartupEnv = env
  args : exists fields, fields ≠ [] ∧ (forall w, w ∈ fields -> PlainWord w) ∧
    s.vars.args = unwords fields ∧ Writes optionTable fields options

theorem Stands.add {options more : List Returned} {s t : ShState StartupVars}
    (h : Stands env options s) {fields : List CString} (hne : fields ≠ [])
    (hplain : forall w, w ∈ fields -> PlainWord w)
    (hwrites : Writes optionTable fields more)
    (henv : t.vars.toStartupEnv = s.vars.toStartupEnv)
    (hargs : t.vars.args = s.vars.args ++ ' ' :: unwords fields) :
    Stands env (options ++ more) t := by
  rcases h.args with ⟨front, hfront, hfrontPlain, hunwords, hfrontWrites⟩
  constructor
  case env => rw [henv, h.env]
  case args =>
    refine ⟨front ++ fields, ?_, ?_, ?_, hfrontWrites.append hwrites⟩
    · exact List.append_ne_nil_of_left_ne_nil hfront fields
    · exact List.forall_mem_append.mpr ⟨hfrontPlain, hplain⟩
    · rw [hargs, hunwords, unwords_append hfront hne]

def optionOf (val : Char) (text : CString) : List Returned :=
  if text = [] then [] else [.option val (some text)]

def sshOptions (env : StartupEnv) : List Returned :=
  if env.sshpasswd = [] then [] else [.option 's' none]

theorem keeps_option {options : List Returned} (get : StartupEnv -> CString)
    {word lead : CString} {val : Char}
    (hread : optionTable.read word = .wanting [] val) (hword : PlainWord word)
    (hlead : lead = ' ' :: (word ++ [' ']))
    (hplain : get env = [] ∨ PlainWord (get env)) :
    Keeps (Stands env options)
      (ifThen (fun s => get s.vars.toStartupEnv != [])
        (assign fun v =>
          { v with args := v.args ++ lead ++ get v.toStartupEnv }))
      (Stands env (options ++ optionOf val (get env))) := by
  apply Keeps.ifThen
  · apply keeps_assign
    rintro s ⟨hs, htest⟩
    rw [hs.env] at htest
    have hne : get env ≠ [] := by simpa using htest
    have hoption : optionOf val (get env) = [.option val (some (get env))] :=
      if_neg hne
    rw [hoption]
    have hfields : forall w, w ∈ [word, get env] -> PlainWord w := by
      intro w hw
      rcases List.mem_pair.mp hw with rfl | rfl
      · exact hword
      · exact hplain.resolve_left hne
    have hargs : s.vars.args ++ lead ++ get s.vars.toStartupEnv =
        s.vars.args ++ ' ' :: unwords [word, get env] := by
      rw [hs.env, hlead]
      simp [unwords]
    exact hs.add (List.cons_ne_nil _ _) hfields (Writes.wanting hread _) rfl hargs
  · intro s hs htest
    rw [hs.env] at htest
    have hempty : get env = [] := by simpa using htest
    have hoption : optionOf val (get env) = [] := if_pos hempty
    rw [hoption, List.append_nil]
    exact ⟨hs.env, hs.args⟩

theorem plainWord_of {word : CString} (hne : word ≠ [])
    (h : (word.all fun c => !isIfs c && !"*?[\\".toList.contains c) = true) :
    PlainWord word where
  nonempty := hne
  solid := by
    intro c hc
    have hboth := List.all_eq_true.mp h c hc
    simp only [Bool.and_eq_true, Bool.not_eq_true'] at hboth
    exact hboth.left
  noPattern := by
    intro c hc hin
    have hboth := List.all_eq_true.mp h c hc
    rw [Bool.and_eq_true, Bool.not_eq_true', List.contains_iff_mem.mpr hin] at hboth
    exact Bool.noConfusion hboth.right

theorem keeps_ssh {options : List Returned} :
    Keeps (Stands env options)
      (ifThen (fun s => s.vars.sshpasswd != [])
        (assign fun v => { v with args := v.args ++ " --ssh".toList }))
      (Stands env (options ++ sshOptions env)) := by
  unfold sshOptions
  apply Keeps.ifThen
  · apply keeps_assign
    rintro s ⟨hs, htest⟩
    have hne : env.sshpasswd ≠ [] := by
      rw [← hs.env]
      simpa using htest
    rw [if_neg hne]
    have hread : optionTable.read "--ssh".toList = .given [.option 's' none] := by
      decide
    have hfields : forall w, w ∈ ["--ssh".toList] -> PlainWord w := by
      intro w hw
      rw [List.mem_singleton.mp hw]
      exact plainWord_of (by decide) (by decide)
    exact hs.add (List.cons_ne_nil _ _) hfields (Writes.given hread) rfl rfl
  · intro s hs htest
    have hempty : env.sshpasswd = [] := by
      rw [← hs.env]
      simpa using htest
    rw [if_pos hempty, List.append_nil]
    exact ⟨hs.env, hs.args⟩

/-!
# The console
-/

def consoleOptions (env : StartupEnv) : List Returned :=
  if env.serial then
    [.option 'd' (some "/dev/ttyS0".toList),
      .option 'r' (some (cutField ',' 2 env.consoleVar))]
  else
    []

theorem serialWords (baud : CString) :
    Writes optionTable
      ["--serialdev=/dev/ttyS0".toList, "--baud=".toList ++ baud]
      [.option 'd' (some "/dev/ttyS0".toList), .option 'r' (some baud)] := by
  have hdev : optionTable.read "--serialdev=/dev/ttyS0".toList =
      .given [.option 'd' (some "/dev/ttyS0".toList)] := by decide
  have hbaud : Writes optionTable ["--baud=".toList ++ baud]
      [.option 'r' (some baud)] := by
    have hfind : longOption optionTable.long "baud".toList =
        some { name := "baud".toList, hasArg := true, val := 'r' } := by decide
    exact Writes.joined hfind rfl (by decide) baud
  exact (Writes.given hdev).append hbaud

theorem consoleField_plain (hglob : forall w, PlainWord w -> glob w = [w])
    {v : StartupVars} (h : v.consoleVar = [] ∨ PlainWord v.consoleVar) (n : Nat) :
    consoleField glob n v = cutField ',' n v.consoleVar := by
  unfold consoleField expansion
  rcases h with hempty | hplain
  · rw [hempty]
    rfl
  · rw [words_field hplain.toIsField, List.flatMap_singleton, hglob _ hplain]
    rfl

theorem plainWord_baud {text : CString} (h : text = [] ∨ PlainWord text) :
    PlainWord ("--baud=".toList ++ cutField ',' 2 text) := by
  have hplain : forall c, c ∈ "--baud=".toList ++ cutField ',' 2 text ->
      isIfs c = false ∧ c ∉ "*?[\\".toList := by
    intro c hc
    rcases List.mem_append.mp hc with hfront | hback
    · have hword : PlainWord "--baud=".toList := plainWord_of (by decide) (by decide)
      exact ⟨hword.solid c hfront, hword.noPattern c hfront⟩
    · have hin := mem_of_mem_cutField hback
      rcases h with hempty | hword
      · rw [hempty] at hin
        cases hin
      · exact ⟨hword.solid c hin, hword.noPattern c hin⟩
  exact ⟨⟨by simp, fun c hc => (hplain c hc).left⟩, fun c hc => (hplain c hc).right⟩

theorem keeps_console (hglob : forall w, PlainWord w -> glob w = [w])
    (hplain : env.consoleVar = [] ∨ PlainWord env.consoleVar)
    {options : List Returned} :
    Keeps (Stands env options)
      (ifThen (fun s => s.vars.console != [])
        (block
          [assign fun v => { v with port := consoleField glob 1 v },
            assign fun v => { v with baud := consoleField glob 2 v },
            ifThen (fun s => s.vars.port == "ttyS0".toList)
              (assign fun v =>
                { v with
                  args := v.args ++ " --serialdev=/dev/".toList ++ v.port ++
                    " --baud=".toList ++ v.baud })]))
      (Stands env (options ++ consoleOptions env)) := by
  -- the fields that the two assignments store
  have hfield : forall {v : StartupVars} {n : Nat}, v.toStartupEnv = env ->
      consoleField glob n v = cutField ',' n env.consoleVar := by
    intro v n hv
    rw [consoleField_plain hglob (by rw [hv]; exact hplain), hv]
  apply Keeps.ifThen
  · apply keeps_block_cons
      (Q := fun s => Stands env options s ∧ env.console ≠ [] ∧
        s.vars.port = cutField ',' 1 env.consoleVar)
    · apply keeps_assign
      rintro s ⟨hs, htest⟩
      rw [hs.env] at htest
      exact ⟨⟨hs.env, hs.args⟩, by simpa using htest, hfield hs.env⟩
    apply keeps_block_cons
      (Q := fun s => Stands env options s ∧ env.console ≠ [] ∧
        s.vars.port = cutField ',' 1 env.consoleVar ∧
        s.vars.baud = cutField ',' 2 env.consoleVar)
    · apply keeps_assign
      rintro s ⟨hs, hconsole, hport⟩
      exact ⟨⟨hs.env, hs.args⟩, hconsole, hport, hfield hs.env⟩
    refine keeps_block_cons ?_ keeps_block_nil
    apply Keeps.ifThen
    · apply keeps_assign
      rintro s ⟨⟨hs, hconsole, hport, hbaud⟩, htest⟩
      have htty : s.vars.port = "ttyS0".toList := by simpa using htest
      have hserial : env.serial = true := by
        rw [hport] at htty
        simp [StartupEnv.serial, hconsole, htty]
      have hoptions : consoleOptions env =
          [.option 'd' (some "/dev/ttyS0".toList),
            .option 'r' (some s.vars.baud)] := by
        rw [hbaud]
        exact if_pos hserial
      rw [hoptions]
      have hfields : forall w, w ∈ ["--serialdev=/dev/ttyS0".toList,
          "--baud=".toList ++ s.vars.baud] -> PlainWord w := by
        intro w hw
        rcases List.mem_pair.mp hw with rfl | rfl
        · exact plainWord_of (by decide) (by decide)
        · rw [hbaud]
          exact plainWord_baud hplain
      refine hs.add (List.cons_ne_nil _ _) hfields (serialWords _) rfl ?_
      show s.vars.args ++ " --serialdev=/dev/".toList ++ s.vars.port ++
        " --baud=".toList ++ s.vars.baud = _
      rw [htty]
      simp [unwords]
    · rintro s ⟨hs, hconsole, hport, hbaud⟩ htest
      have hserial : env.serial = false := by
        rw [hport] at htest
        rw [StartupEnv.serial, htest, Bool.and_false]
      have hoptions : consoleOptions env = [] := by simp [consoleOptions, hserial]
      rw [hoptions, List.append_nil]
      exact ⟨hs.env, hs.args⟩
  · intro s hs htest
    rw [hs.env] at htest
    have hserial : env.serial = false := by
      have hempty : env.console = [] := by simpa using htest
      simp [StartupEnv.serial, hempty]
    have hoptions : consoleOptions env = [] := by simp [consoleOptions, hserial]
    rw [hoptions, List.append_nil]
    exact ⟨hs.env, hs.args⟩

/-!
# From the variables to the settings
-/

def startupOptions (env : StartupEnv) : List Returned :=
  [.option 'b' none] ++ optionOf 'i' env.updateInterval ++
    optionOf 'u' env.updateUrl ++ sshOptions env ++
      optionOf 't' env.breakinDisable ++ consoleOptions env

/-- The words that `breakin` gets stand for the options, whatever the values are. -/
theorem startup_writes (hglob : forall w, PlainWord w -> glob w = [w])
    (hplain : env.Plain) :
    getoptLong optionTable (startupArgv glob env) = startupOptions env := by
  have hstart : Keeps (fun s => s.vars.toStartupEnv = env)
      (assign fun v : StartupVars => { v with args := "-b".toList })
      (Stands env [.option 'b' none]) := by
    apply keeps_assign
    intro s hs
    have hread : optionTable.read "-b".toList = .given [.option 'b' none] := by decide
    refine ⟨hs, ["-b".toList], by simp, ?_, rfl, Writes.given hread⟩
    intro w hw
    rw [List.mem_singleton.mp hw]
    exact plainWord_of (by decide) (by decide)
  have hinterval := fun options => @keeps_option env options StartupEnv.updateInterval
    "--update_interval".toList " --update_interval ".toList 'i' (by decide)
    (plainWord_of (by decide) (by decide)) rfl (hplain _ (by simp))
  have hurl := fun options => @keeps_option env options StartupEnv.updateUrl
    "--update_url".toList " --update_url ".toList 'u' (by decide)
    (plainWord_of (by decide) (by decide)) rfl (hplain _ (by simp))
  have hdisable := fun options => @keeps_option env options StartupEnv.breakinDisable
    "--disable_test".toList " --disable_test ".toList 't' (by decide)
    (plainWord_of (by decide) (by decide)) rfl (hplain _ (by simp))
  have hexec : Keeps (Stands env (startupOptions env))
      (assign fun v : StartupVars =>
        { v with started := some (expansion glob v.args) })
      (fun s => getoptLong optionTable (s.vars.started.getD []) =
        startupOptions env) := by
    apply keeps_assign
    intro s hs
    rcases hs.args with ⟨fields, _, hfields, hargs, hwrites⟩
    show getoptLong optionTable (expansion glob s.vars.args) = _
    have hwords : expansion glob s.vars.args = fields := by
      unfold expansion
      rw [hargs, words_unwords fun w hw => (hfields w hw).toIsField]
      have hsame : forall w, w ∈ fields -> glob w = [w] :=
        fun w hw => hglob w (hfields w hw)
      rw [List.flatMap_congr hsame, List.flatMap_singleton']
    rw [hwords, hwrites.whole]
  have hrun : Keeps (fun s => s.vars.toStartupEnv = env) (startup glob)
      (fun s => getoptLong optionTable (s.vars.started.getD []) =
        startupOptions env) :=
    keeps_block_cons hstart <|
      keeps_block_cons (hinterval _) <|
        keeps_block_cons (hurl _) <|
          keeps_block_cons keeps_ssh <|
            keeps_block_cons (hdisable _) <|
              keeps_block_cons (keeps_console hglob (hplain _ (by simp))) <|
                keeps_block_cons hexec keeps_block_nil
  rcases hrun (startupStart env) rfl with ⟨t, ht, hoptions⟩
  unfold startupArgv
  rw [ht]
  exact hoptions

/-!
# What each piece does to the settings
-/

theorem optionLoop_append (s : Settings) (front back : List Returned) :
    optionLoop s (front ++ back) =
      (optionLoop s front).bind fun t => optionLoop t back :=
  List.foldlM_append

theorem optionLoop_interval (s : Settings) (text : CString) :
    optionLoop s (optionOf 'i' text) =
      some { s with
        updateInterval := if text = [] then s.updateInterval else intervalOf text } := by
  unfold optionOf
  split
  · rfl
  · rfl

theorem optionLoop_url (s : Settings) (text : CString) :
    optionLoop s (optionOf 'u' text) =
      some { s with
        enableUpdates := s.enableUpdates || text != []
        updateUrl := if text = [] then s.updateUrl else snprintf TEXT_SIZE text } := by
  unfold optionOf
  cases text with
  | nil => simp [optionLoop]
  | cons c text => simp [optionLoop, optionCase]

theorem optionLoop_disable (s : Settings) (text : CString) :
    optionLoop s (optionOf 't' text) =
      some { s with
        breakinDisable :=
          if text = [] then s.breakinDisable else snprintf DISABLE_SIZE text } := by
  unfold optionOf
  split
  · rfl
  · rfl

theorem optionLoop_ssh (s : Settings) (env : StartupEnv) :
    optionLoop s (sshOptions env) =
      some { s with enabledSsh := s.enabledSsh || env.sshpasswd != [] } := by
  unfold sshOptions
  cases env.sshpasswd with
  | nil => simp [optionLoop]
  | cons c text => simp [optionLoop, optionCase]

theorem optionLoop_console (s : Settings) (env : StartupEnv) :
    optionLoop s (consoleOptions env) =
      some { s with
        serialEnabled := s.serialEnabled || env.serial
        serialBaud :=
          if env.serial then atoi (cutField ',' 2 env.consoleVar) else s.serialBaud
        serialDev := if env.serial then "/dev/ttyS0".toList else s.serialDev } := by
  unfold consoleOptions
  cases env.serial with
  | false => simp [optionLoop]
  | true =>
      have hdev : snprintf TEXT_SIZE "/dev/ttyS0".toList = "/dev/ttyS0".toList :=
        snprintf_eq_self (by decide)
      simp [optionLoop, optionCase, -String.reduceToList, hdev]

theorem snprintf_of_empty {size : Nat} (text : CString) :
    (if text = [] then [] else snprintf size text) = snprintf size text := by
  split
  · rename_i hempty
    rw [hempty]
    exact (List.take_nil).symm
  · rfl

theorem optionLoop_startup (env : StartupEnv) :
    optionLoop Settings.initial (startupOptions env) = some env.settings := by
  have hfirst : optionLoop Settings.initial [.option 'b' none] =
      some { Settings.initial with enableBenchmarks := false } := rfl
  unfold startupOptions
  simp only [optionLoop_append, hfirst, Option.bind_some, optionLoop_interval,
    optionLoop_url, optionLoop_ssh, optionLoop_disable, optionLoop_console]
  simp only [Settings.initial, StartupEnv.settings, Bool.false_or, snprintf_of_empty]

/-- What the variables ask for is what `breakin` runs with: no value is split or taken
for another option. -/
theorem startup_settings (hglob : forall w, PlainWord w -> glob w = [w])
    (hplain : env.Plain) :
    readOptions (startupArgv glob env) = some env.settings := by
  unfold readOptions
  rw [startup_writes hglob hplain, optionLoop_startup]

/-- The test that the kernel command line disables first is never launched, and
nothing but the visible tests of the directory is. -/
theorem disabled_never_launched (hglob : forall w, PlainWord w -> glob w = [w])
    (hplain : env.Plain) (hnul : NUL ∉ env.breakinDisable) {s : Settings}
    (hread : readOptions (startupArgv glob env) = some s)
    {listing : List CString} {table : List BurninScript}
    (hfind : findBurninTests s.breakinDisable emptyTable (some listing) = some table)
    {pid : Nat} {acts : List Action} {w : World}
    (hrun : ExecRun (start pid (table.map BurninScript.name)) acts w) :
    forall i, i ∈ launchedIn acts ->
      exists name, (table.map BurninScript.name)[i]? = some name ∧
        name ∈ listing ∧ name.head? ≠ some '.' ∧
          some name ≠ (tokens ',' (snprintf DISABLE_SIZE env.breakinDisable)).head? := by
  intro i hi
  unfold readOptions at hread
  rw [startup_writes hglob hplain, optionLoop_startup] at hread
  cases hread
  have hnames : table.map BurninScript.name =
      keptNames (tokens ',' (snprintf DISABLE_SIZE env.breakinDisable)) listing :=
    findBurninTests_names (fun h => hnul (List.mem_of_mem_take h))
      (snprintf_length_lt (by decide) _) hfind
  have hlt := launched_inTable hrun i hi
  have hname := List.getElem?_eq_getElem hlt
  refine ⟨_, hname, keptNames_first ?_⟩
  rw [← hnames]
  exact List.mem_of_getElem? hname

end Startup

/-- A machine with a serial console that is not to run `ecc`. -/
def serialEnv : StartupEnv where
  updateInterval := "60".toList
  updateUrl := "http://10.0.0.1/update".toList
  sshpasswd := []
  breakinDisable := "ecc".toList
  console := "1".toList
  consoleVar := "ttyS0,57600".toList

theorem serialEnv_plain : serialEnv.Plain := by
  intro text htext
  have hall : forall text, text ∈ [serialEnv.updateInterval, serialEnv.updateUrl,
      serialEnv.breakinDisable, serialEnv.consoleVar] ->
        text ≠ [] ∧
          (text.all fun c => !isIfs c && !"*?[\\".toList.contains c) = true := by
    decide
  exact Or.inr (plainWord_of (hall text htext).left (hall text htext).right)

theorem startup_settings_serial :
    readOptions (startupArgv (fun w => [w]) serialEnv) = some serialEnv.settings :=
  startup_settings (fun _ _ => rfl) serialEnv_plain

/-- The directory holds `ecc` and `hpl`; the run launches the second. -/
theorem disabled_never_launched_ecc :
    exists s table w,
      readOptions (startupArgv (fun w => [w]) serialEnv) = some s ∧
      findBurninTests s.breakinDisable emptyTable
          (some ["ecc".toList, "hpl".toList]) = some table ∧
      ExecRun (start 1 (table.map BurninScript.name)) oneScriptRun w ∧
      forall i, i ∈ launchedIn oneScriptRun ->
        exists name, (table.map BurninScript.name)[i]? = some name ∧
          name ∈ ["ecc".toList, "hpl".toList] ∧ name.head? ≠ some '.' ∧
            some name ≠
              (tokens ',' (snprintf DISABLE_SIZE serialEnv.breakinDisable)).head? := by
  have hglob : forall w, PlainWord w -> (fun w : CString => [w]) w = [w] :=
    fun _ _ => rfl
  have hread : readOptions (startupArgv (fun w => [w]) serialEnv) =
      some serialEnv.settings := by
    unfold readOptions
    rw [startup_writes hglob serialEnv_plain, optionLoop_startup]
  have hfind : findBurninTests serialEnv.settings.breakinDisable emptyTable
      (some ["ecc".toList, "hpl".toList]) =
        some [BurninScript.found "hpl".toList] := by decide +kernel
  have hrun : exists w, ExecRun
      (start 1 ([BurninScript.found "hpl".toList].map BurninScript.name))
      oneScriptRun w := ⟨_, rfl, by decide⟩
  rcases hrun with ⟨w, hrun⟩
  exact ⟨_, _, w, hread, hfind, hrun,
    disabled_never_launched hglob serialEnv_plain (by decide) hread hfind hrun⟩

end Scripts
end Breakin
