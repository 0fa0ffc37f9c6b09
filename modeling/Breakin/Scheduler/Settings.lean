import Breakin.Foundation.Numbers
import Breakin.Foundation.Options
import Breakin.Scheduler.FindTests

/-!
# The settings of a run

`main` reads its command line with `getopt_long` before it does anything else.  It
leaves with the usage text at the first word it does not know; otherwise the last
option of each kind counts.
-/

namespace Breakin
namespace Scheduler

open Foundation

def DEFAULT_UPDATE_INTERVAL : Int32 := 300

/-- The size of `update_url` and of `serial_dev`. -/
def TEXT_SIZE : Nat := 1024

@[ext] structure Settings where
  updateUrl : CString
  updateInterval : Int32
  enableUpdates : Bool
  serialEnabled : Bool
  serialBaud : Int32
  serialDev : CString
  breakinDisable : CString
  enableBenchmarks : Bool
  enabledSsh : Bool
deriving DecidableEq

def Settings.initial : Settings where
  updateUrl := []
  updateInterval := DEFAULT_UPDATE_INTERVAL
  enableUpdates := false
  serialEnabled := false
  serialBaud := 115200
  serialDev := []
  breakinDisable := []
  enableBenchmarks := true
  enabledSsh := false

def longOptions : List LongOption :=
  [{ name := "update_url".toList, hasArg := true, val := 'u' },
    { name := "update_interval".toList, hasArg := true, val := 'i' },
    { name := "nobenchmark".toList, hasArg := false, val := 'b' },
    { name := "ssh".toList, hasArg := false, val := 's' },
    { name := "baud".toList, hasArg := true, val := 'r' },
    { name := "serialdev".toList, hasArg := true, val := 'd' },
    { name := "disable_test".toList, hasArg := true, val := 't' }]

def optionTable : OptionTable where
  optstring := "u:i:bsd:r:t:".toList
  long := longOptions

def intervalOf (optarg : CString) : Int32 :=
  if atoi optarg < 10 then DEFAULT_UPDATE_INTERVAL else atoi optarg

/-- The `switch` of the option loop; `none` is `exit(1)`. -/
def optionCase (s : Settings) : Returned -> Option Settings
  | .option 'u' (some optarg) =>
      some { s with enableUpdates := true, updateUrl := snprintf TEXT_SIZE optarg }
  | .option 'i' (some optarg) => some { s with updateInterval := intervalOf optarg }
  | .option 'b' _ => some { s with enableBenchmarks := false }
  | .option 's' _ => some { s with enabledSsh := true }
  | .option 'r' (some optarg) => some { s with serialBaud := atoi optarg }
  | .option 'd' (some optarg) =>
      some { s with serialDev := snprintf TEXT_SIZE optarg, serialEnabled := true }
  | .option 't' (some optarg) =>
      some { s with breakinDisable := snprintf DISABLE_SIZE optarg }
  | _ => none

def optionLoop (s : Settings) (returned : List Returned) : Option Settings :=
  returned.foldlM optionCase s

/-- The settings that `main` goes on with, for the words behind its name. -/
def readOptions (argv : List CString) : Option Settings :=
  optionLoop Settings.initial (getoptLong optionTable argv)

/-!
# The last option counts
-/

def argOf (val : Char) : Returned -> Option CString
  | .option c optarg => if c = val then optarg else none
  | .unknown => none

def isOption (val : Char) : Returned -> Bool
  | .option c _ => c == val
  | .unknown => false

def settingsOf (returned : List Returned) : Settings where
  updateUrl := ((lastSome (argOf 'u') returned).map (snprintf TEXT_SIZE)).getD []
  updateInterval :=
    ((lastSome (argOf 'i') returned).map intervalOf).getD DEFAULT_UPDATE_INTERVAL
  enableUpdates := returned.any (isOption 'u')
  serialEnabled := returned.any (isOption 'd')
  serialBaud := ((lastSome (argOf 'r') returned).map atoi).getD 115200
  serialDev := ((lastSome (argOf 'd') returned).map (snprintf TEXT_SIZE)).getD []
  breakinDisable :=
    ((lastSome (argOf 't') returned).map (snprintf DISABLE_SIZE)).getD []
  enableBenchmarks := !returned.any (isOption 'b')
  enabledSsh := returned.any (isOption 's')

theorem optionCase_eq {s t : Settings} {r : Returned} (h : optionCase s r = some t) :
    t =
      { updateUrl := ((argOf 'u' r).map (snprintf TEXT_SIZE)).getD s.updateUrl
        updateInterval := ((argOf 'i' r).map intervalOf).getD s.updateInterval
        enableUpdates := (if isOption 'u' r then some true else none).getD s.enableUpdates
        serialEnabled := (if isOption 'd' r then some true else none).getD s.serialEnabled
        serialBaud := ((argOf 'r' r).map atoi).getD s.serialBaud
        serialDev := ((argOf 'd' r).map (snprintf TEXT_SIZE)).getD s.serialDev
        breakinDisable :=
          ((argOf 't' r).map (snprintf DISABLE_SIZE)).getD s.breakinDisable
        enableBenchmarks :=
          (if isOption 'b' r then some false else none).getD s.enableBenchmarks
        enabledSsh := (if isOption 's' r then some true else none).getD s.enabledSsh } := by
  unfold optionCase at h
  split at h
  · cases h
    rfl
  · cases h
    rfl
  · cases h
    rfl
  · cases h
    rfl
  · cases h
    rfl
  · cases h
    rfl
  · cases h
    rfl
  · cases h

theorem optionLoop_arg {part : Settings -> β} {val : Char} {f : CString -> β}
    (hstep : forall s r t, optionCase s r = some t ->
      part t = ((argOf val r).map f).getD (part s))
    {returned : List Returned} {s t : Settings}
    (h : optionLoop s returned = some t) :
    part t = ((lastSome (argOf val) returned).map f).getD (part s) := by
  rw [← lastSome_map]
  exact foldlM_lastSome hstep h

theorem optionLoop_flag {part : Settings -> Bool} {val : Char} {b : Bool}
    (hstep : forall s r t, optionCase s r = some t ->
      part t = (if isOption val r then some b else none).getD (part s))
    {returned : List Returned} {s t : Settings}
    (h : optionLoop s returned = some t) :
    part t = if returned.any (isOption val) then b else part s := by
  rw [foldlM_lastSome hstep h, lastSome_constant]
  cases returned.any (isOption val) with
  | false => rfl
  | true => rfl

theorem optionLoop_raised {part : Settings -> Bool} {val : Char}
    (hstep : forall s r t, optionCase s r = some t ->
      part t = (if isOption val r then some true else none).getD (part s))
    {returned : List Returned} {s t : Settings} (hs : part s = false)
    (h : optionLoop s returned = some t) :
    part t = returned.any (isOption val) := by
  rw [optionLoop_flag hstep h, hs]
  cases returned.any (isOption val) with
  | false => rfl
  | true => rfl

/-- Together, options set what the last one of each kind does. -/
theorem optionLoop_settings {returned : List Returned} {t : Settings}
    (h : optionLoop Settings.initial returned = some t) :
    t = settingsOf returned := by
  apply Settings.ext
  case updateUrl =>
    exact optionLoop_arg
      (fun _ _ _ hstep => congrArg Settings.updateUrl (optionCase_eq hstep)) h
  case updateInterval =>
    exact optionLoop_arg
      (fun _ _ _ hstep => congrArg Settings.updateInterval (optionCase_eq hstep)) h
  case enableUpdates =>
    exact optionLoop_raised
      (fun _ _ _ hstep => congrArg Settings.enableUpdates (optionCase_eq hstep)) rfl h
  case serialEnabled =>
    exact optionLoop_raised
      (fun _ _ _ hstep => congrArg Settings.serialEnabled (optionCase_eq hstep)) rfl h
  case serialBaud =>
    exact optionLoop_arg
      (fun _ _ _ hstep => congrArg Settings.serialBaud (optionCase_eq hstep)) h
  case serialDev =>
    exact optionLoop_arg
      (fun _ _ _ hstep => congrArg Settings.serialDev (optionCase_eq hstep)) h
  case breakinDisable =>
    exact optionLoop_arg
      (fun _ _ _ hstep => congrArg Settings.breakinDisable (optionCase_eq hstep)) h
  case enableBenchmarks =>
    rw [optionLoop_flag
      (fun _ _ _ hstep => congrArg Settings.enableBenchmarks (optionCase_eq hstep)) h]
    cases hany : returned.any (isOption 'b') with
    | false => simp [settingsOf, Settings.initial, hany]
    | true => simp [settingsOf, hany]
  case enabledSsh =>
    exact optionLoop_raised
      (fun _ _ _ hstep => congrArg Settings.enabledSsh (optionCase_eq hstep)) rfl h

theorem offered_letter {val : Char} {optarg : Option CString}
    (h : optionTable.Offers (.option val optarg)) :
    (val ∈ "uirdt".toList ∧ optarg.isSome = true) ∨
      (val ∈ "bs".toList ∧ optarg.isSome = false) := by
  have hoffers : shortOption optionTable.optstring val = some optarg.isSome ∨
      exists o, o ∈ optionTable.long ∧ o.val = val ∧ o.hasArg = optarg.isSome := h
  generalize optarg.isSome = b at hoffers ⊢
  rcases hoffers with hshort | ⟨o, ho, hval, harg⟩
  · have hall : (optionTable.optstring.all fun c =>
        match shortOption optionTable.optstring c with
        | none => true
        | some true => "uirdt".toList.contains c
        | some false => "bs".toList.contains c) = true := by decide
    have hletter := List.all_eq_true.mp hall val (shortOption_mem hshort)
    rw [hshort] at hletter
    cases b with
    | false => exact Or.inr ⟨List.contains_iff_mem.mp hletter, rfl⟩
    | true => exact Or.inl ⟨List.contains_iff_mem.mp hletter, rfl⟩
  · have hall : forall o, o ∈ optionTable.long ->
        (o.val ∈ "uirdt".toList ∧ o.hasArg = true) ∨
          (o.val ∈ "bs".toList ∧ o.hasArg = false) := by
      decide
    rw [← hval, ← harg]
    exact hall o ho

theorem optionCase_none_iff {r : Returned} (h : optionTable.Offers r) (s : Settings) :
    optionCase s r = none <-> r = .unknown := by
  cases r with
  | unknown => exact iff_of_true rfl rfl
  | option val optarg =>
      apply iff_of_false _ Returned.noConfusion
      rcases offered_letter h with ⟨hval, harg⟩ | ⟨hval, _⟩
      · rcases Option.isSome_iff_exists.mp harg with ⟨arg, rfl⟩
        have hall : forall c, c ∈ "uirdt".toList -> forall arg,
            optionCase s (.option c (some arg)) ≠ none := by
          simp [optionCase]
        exact hall val hval arg
      · have hall : forall c, c ∈ "bs".toList -> forall optarg,
            optionCase s (.option c optarg) ≠ none := by
          simp [optionCase]
        exact hall val hval optarg

theorem readOptions_none_iff {argv : List CString} :
    readOptions argv = none <-> .unknown ∈ getoptLong optionTable argv := by
  have hstep : forall s r, r ∈ getoptLong optionTable argv ->
      (optionCase s r = none <-> r = .unknown) := by
    intro s r hr
    rcases getoptLong_givenBy hr with ⟨_, _, hoffers, _⟩
    exact optionCase_none_iff hoffers s
  unfold readOptions optionLoop
  rw [foldlM_none_iff hstep]
  constructor
  · rintro ⟨r, hr, rfl⟩
    exact hr
  · intro h
    exact ⟨.unknown, h, rfl⟩

/-- The settings that are read, whatever the command line is. -/
theorem readOptions_some_iff {argv : List CString} {s : Settings} :
    readOptions argv = some s <->
      .unknown ∉ getoptLong optionTable argv ∧
        s = settingsOf (getoptLong optionTable argv) := by
  constructor
  · intro h
    constructor
    · intro hunknown
      rw [readOptions_none_iff.mpr hunknown] at h
      cases h
    · exact optionLoop_settings h
  · rintro ⟨hknown, rfl⟩
    cases h : readOptions argv with
    | none => exact absurd (readOptions_none_iff.mp h) hknown
    | some t => rw [optionLoop_settings h]

/-!
# What the settings are good for
-/

/-- The speeds that `start_serial` knows. -/
inductive Speed where
  | B9600
  | B19200
  | B38400
  | B57600
  | B115200
deriving DecidableEq

/-- The `switch` of `start_serial`. -/
def Settings.speed (s : Settings) : Speed :=
  if s.serialBaud = 115200 then .B115200
  else if s.serialBaud = 57600 then .B57600
  else if s.serialBaud = 38400 then .B38400
  else if s.serialBaud = 19200 then .B19200
  else .B9600

/-- What `sprintf` writes into `buf` from the settings. -/
def Settings.messages (s : Settings) : List CString :=
  ["Was asked to disable the following tests: ".toList ++ s.breakinDisable,
    "Sending updates to ".toList ++ s.updateUrl ++ " every ".toList ++
      printInt s.updateInterval.toInt ++ " seconds".toList,
    "Serial logging enabled on ".toList ++ s.serialDev ++ " baud ".toList ++
      printInt s.serialBaud.toInt,
    "Error opening serial port ".toList ++ s.serialDev]

structure Settings.Sound (s : Settings) : Prop where
  interval : 10 ≤ s.updateInterval
  url : s.updateUrl.length < TEXT_SIZE
  dev : s.serialDev.length < TEXT_SIZE
  disable : s.breakinDisable.length < DISABLE_SIZE

theorem snprintf_length_lt {size : Nat} (h : 0 < size) (text : CString) :
    (snprintf size text).length < size :=
  Nat.lt_of_le_of_lt (List.length_take_le _ _) (Nat.sub_lt h Nat.one_pos)

theorem intervalOf_ge (optarg : CString) : 10 ≤ intervalOf optarg := by
  unfold intervalOf
  split
  · decide
  · rename_i h
    exact Int32.not_lt.mp h

theorem getD_map_of {P : β -> Prop} {f : α -> β} {b : β} (hf : forall a, P (f a))
    (hb : P b) (o : Option α) : P ((o.map f).getD b) := by
  cases o with
  | none => exact hb
  | some a => exact hf a

theorem settingsOf_sound (returned : List Returned) : (settingsOf returned).Sound where
  interval := getD_map_of intervalOf_ge (by decide) _
  url := getD_map_of (P := fun text : CString => text.length < TEXT_SIZE)
    (snprintf_length_lt (by decide)) (by decide) _
  dev := getD_map_of (P := fun text : CString => text.length < TEXT_SIZE)
    (snprintf_length_lt (by decide)) (by decide) _
  disable := getD_map_of (P := fun text : CString => text.length < DISABLE_SIZE)
    (snprintf_length_lt (by decide)) (by decide) _

theorem printInt_length {n : Int} {k : Nat} (hk : 0 < k) (h : n.natAbs < 10 ^ k) :
    (printInt n).length ≤ k + 1 := by
  have hdigits : forall m, m < 10 ^ k -> (decimal m).length ≤ k :=
    fun m hm => (Nat.length_toDigits_le_iff (by decide) hk).mpr hm
  cases n with
  | ofNat m => exact Nat.le_succ_of_le (hdigits m h)
  | negSucc m => exact Nat.succ_le_succ (hdigits (m + 1) h)

theorem printInt_int32_length (n : Int32) : (printInt n.toInt).length ≤ 11 := by
  have hle := n.toInt_lt
  have hge := n.le_toInt
  exact printInt_length (k := 10) (by decide) (by omega)

/-- `sprintf` stays inside `buf` for all of them. -/
theorem Settings.Sound.messages_fit {s : Settings} (h : s.Sound) :
    forall text, text ∈ s.messages -> text.length < BUFSIZ := by
  rcases h with ⟨_, hurl, hdev, hdisable⟩
  have hinterval := printInt_int32_length s.updateInterval
  have hbaud := printInt_int32_length s.serialBaud
  simp only [TEXT_SIZE, DISABLE_SIZE] at hurl hdev hdisable
  simp only [Settings.messages, List.forall_mem_cons, List.length_append,
    String.length_toList, List.not_mem_nil, false_implies, implies_true, BUFSIZ]
  refine ⟨?_, ?_, ?_, ?_, trivial⟩
  · have htext : "Was asked to disable the following tests: ".length = 42 := rfl
    omega
  · have htext : "Sending updates to ".length + " every ".length +
        " seconds".length = 34 := rfl
    omega
  · have htext : "Serial logging enabled on ".length + " baud ".length = 32 := rfl
    omega
  · have htext : "Error opening serial port ".length = 26 := rfl
    omega

/-- Whatever the command line is, `main` either leaves with the usage text, which it
does exactly when there is an option it does not know, or goes on with what the last
option of each kind says; the interval is at least ten seconds then, and every
message that is made from the settings fits into its buffer. -/
theorem command_line_settled (argv : List CString) :
    match readOptions argv with
    | none => .unknown ∈ getoptLong optionTable argv
    | some s =>
        .unknown ∉ getoptLong optionTable argv ∧
          s = settingsOf (getoptLong optionTable argv) ∧ s.Sound ∧
          forall text, text ∈ s.messages -> text.length < BUFSIZ := by
  cases h : readOptions argv with
  | none => exact readOptions_none_iff.mp h
  | some s =>
      rcases readOptions_some_iff.mp h with ⟨hknown, rfl⟩
      have hsound := settingsOf_sound (getoptLong optionTable argv)
      exact ⟨hknown, rfl, hsound, hsound.messages_fit⟩

end Scheduler
end Breakin
