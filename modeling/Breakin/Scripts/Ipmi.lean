import Breakin.Foundation.Publish
import Breakin.Foundation.Words
import Breakin.Stats.Sensors

/-!
# The sensor files

`ipmi.sh` asks for the temperatures and the fans over and over, writes what it gets
into a file of its own, and moves that file to where `get_ipmi_sensors` looks for it.
Both run at the same time.
-/

namespace Breakin
namespace Scripts

open Foundation
open Stats

/-- What `ipmitool sdr type` prints in one round, for `Temperature` and for `Fan`. -/
structure IpmiRound where
  temperature : List Char
  fan : List Char
deriving DecidableEq

/-- `cut -d"|" -f1,5 | sed s/word//` -/
def sdrText (word : List Char) (output : List Char) : List Char :=
  streamOf ((textLines output).map fun line =>
    removeFirst word (cutFields '|' [1, 5] (line.takeWhile fun c => c != '\n')))

def IpmiRound.tempText (round : IpmiRound) : List Char :=
  sdrText "Temperature".toList round.temperature

def IpmiRound.fanText (round : IpmiRound) : List Char :=
  sdrText "Fan".toList round.fan

/-- Where `ipmi.sh` is: between two rounds, or in one, with what the pipeline has
still to write. -/
inductive IpmiPC where
  | idle
  | temps (round : IpmiRound) (rest : List Char)
  | fans (round : IpmiRound) (rest : List Char)
deriving DecidableEq

/-- Where `get_ipmi_sensors` is, with what it has read of the temperatures.  `moved`
is history: how often a file had been moved into its place when it was opened. -/
inductive SensorsPC where
  | idle
  | temps (moved reader : Nat)
  | between (moved : Nat) (temps : Option (List Char))
  | fans (tempsMoved : Nat) (temps : Option (List Char)) (moved reader : Nat)
deriving DecidableEq

/-- What a call of `get_ipmi_sensors` has read of the two files, and how often each had
been moved into its place when the call opened it. -/
structure SensorsCall where
  tempsMoved : Nat
  temps : Option (List Char)
  fansMoved : Nat
  fans : Option (List Char)
deriving DecidableEq

/-- The two files, the script and `breakin`.  The rest is history: the rounds that
have begun, and what the calls of `get_ipmi_sensors` have read. -/
structure IpmiWorld where
  temps : Publication
  fans : Publication
  script : IpmiPC
  sensors : SensorsPC
  rounds : List IpmiRound
  calls : List SensorsCall
deriving DecidableEq

/-- `cutShort` ends a pipeline that has not written all of its output.  A read asks
for `n + 1` characters. -/
inductive IpmiEvent where
  | getIpmi (round : IpmiRound)
  | output (n : Nat)
  | cutShort
  | mv (ok : Bool)
  | openTemps
  | readTemps (n : Nat)
  | openFans
  | readFans (n : Nat)
deriving DecidableEq

def ipmiStart : IpmiWorld where
  temps := Publication.initial
  fans := Publication.initial
  script := .idle
  sensors := .idle
  rounds := []
  calls := []

def scriptStep (w : IpmiWorld) : IpmiEvent -> Option IpmiWorld
  | .getIpmi round =>
      match w.script with
      | .idle =>
          some { w with
            temps := w.temps.create
            script := .temps round round.tempText
            rounds := w.rounds ++ [round] }
      | _ => none
  | .output n =>
      match w.script with
      | .idle => none
      | .temps round rest =>
          (w.temps.write (rest.take n)).map fun p =>
            { w with temps := p, script := .temps round (rest.drop n) }
      | .fans round rest =>
          (w.fans.write (rest.take n)).map fun p =>
            { w with fans := p, script := .fans round (rest.drop n) }
  | .cutShort =>
      match w.script with
      | .idle => none
      | .temps round _ => some { w with script := .temps round [] }
      | .fans round _ => some { w with script := .fans round [] }
  | .mv ok =>
      match w.script with
      | .temps round [] =>
          (w.temps.rename ok).map fun p =>
            { w with
              temps := p
              fans := w.fans.create
              script := .fans round round.fanText }
      | .fans _ [] =>
          (w.fans.rename ok).map fun p => { w with fans := p, script := .idle }
      | _ => none
  | _ => none

def sensorsStep (w : IpmiWorld) : IpmiEvent -> Option IpmiWorld
  | .openTemps =>
      match w.sensors with
      | .idle =>
          let moved := w.temps.versions.length
          match w.temps.openFinal with
          | none => some { w with sensors := .between moved none }
          | some p =>
              some { w with temps := p, sensors := .temps moved w.temps.readers.length }
      | _ => none
  | .readTemps n =>
      match w.sensors with
      | .temps moved r => do
          let reader ← w.temps.readers[r]?
          if w.temps.next reader (n + 1) = [] then
            some { w with sensors := .between moved (some reader.got) }
          else do
            let p ← w.temps.read r (n + 1)
            some { w with temps := p }
      | _ => none
  | .openFans =>
      match w.sensors with
      | .between tempsMoved temps =>
          let moved := w.fans.versions.length
          match w.fans.openFinal with
          | none =>
              some { w with
                sensors := .idle
                calls := w.calls ++ [⟨tempsMoved, temps, moved, none⟩] }
          | some p =>
              some { w with
                fans := p
                sensors := .fans tempsMoved temps moved w.fans.readers.length }
      | _ => none
  | .readFans n =>
      match w.sensors with
      | .fans tempsMoved temps moved r => do
          let reader ← w.fans.readers[r]?
          if w.fans.next reader (n + 1) = [] then
            some { w with
              sensors := .idle
              calls := w.calls ++ [⟨tempsMoved, temps, moved, some reader.got⟩] }
          else do
            let p ← w.fans.read r (n + 1)
            some { w with fans := p }
      | _ => none
  | _ => none

def ipmiStep (w : IpmiWorld) (e : IpmiEvent) : Option IpmiWorld :=
  (scriptStep w e).or (sensorsStep w e)

/-!
# The script
-/

def ScriptSound (w : IpmiWorld) : Prop :=
  match w.script with
  | .idle =>
      w.temps.versions = w.rounds.map IpmiRound.tempText ∧
        w.fans.versions = w.rounds.map IpmiRound.fanText
  | .temps round rest =>
      exists before i, w.rounds = before ++ [round] ∧
        w.temps.versions = before.map IpmiRound.tempText ∧
        w.fans.versions = before.map IpmiRound.fanText ∧
        w.temps.temp = some i ∧ w.temps.content i ++ rest = round.tempText
  | .fans round rest =>
      exists before i, w.rounds = before ++ [round] ∧
        w.temps.versions = w.rounds.map IpmiRound.tempText ∧
        w.fans.versions = before.map IpmiRound.fanText ∧
        w.fans.temp = some i ∧ w.fans.content i ++ rest = round.fanText

theorem ScriptSound.behind {w : IpmiWorld} (h : ScriptSound w) :
    w.temps.versions.length ≤ w.fans.versions.length + 1 ∧
      w.temps.versions <+: w.rounds.map IpmiRound.tempText ∧
      w.fans.versions <+: w.rounds.map IpmiRound.fanText := by
  unfold ScriptSound at h
  split at h
  · rcases h with ⟨htemps, hfans⟩
    rw [htemps, hfans, List.length_map, List.length_map]
    exact ⟨Nat.le_succ _, List.prefix_rfl, List.prefix_rfl⟩
  · rcases h with ⟨before, i, hrounds, htemps, hfans, _⟩
    rw [htemps, hfans, hrounds, List.length_map, List.length_map, List.map_append,
      List.map_append]
    exact ⟨Nat.le_succ _, List.prefix_append _ _, List.prefix_append _ _⟩
  · rcases h with ⟨before, i, hrounds, htemps, hfans, _⟩
    rw [htemps, hfans, hrounds, List.length_map, List.length_map, List.map_append,
      List.length_append, List.map_append]
    exact ⟨Nat.le_refl _, List.prefix_rfl, List.prefix_append _ _⟩

def Undisturbed (e : IpmiEvent) : Prop :=
  e ≠ .cutShort ∧ e ≠ .mv false

instance : DecidablePred Undisturbed := fun e =>
  inferInstanceAs (Decidable (e ≠ .cutShort ∧ e ≠ .mv false))

structure ScriptTurn (w w' : IpmiWorld) : Prop where
  temps : w.temps.Grows w'.temps
  fans : w.fans.Grows w'.fans
  sensors : w'.sensors = w.sensors
  calls : w'.calls = w.calls

theorem scriptStep_turn {w w' : IpmiWorld} {e : IpmiEvent}
    (htemps : w.temps.Sound) (hfans : w.fans.Sound)
    (hstep : scriptStep w e = some w') :
    ScriptTurn w w' ∧ w'.temps.Sound ∧ w'.fans.Sound := by
  cases e with
  | getIpmi round =>
      simp only [scriptStep] at hstep
      split at hstep
      · cases hstep
        exact ⟨⟨Publication.create_grows _, .refl _, rfl, rfl⟩, htemps.create, hfans⟩
      · cases hstep
  | output n =>
      simp only [scriptStep] at hstep
      split at hstep
      · cases hstep
      · rcases Option.map_eq_some_iff.mp hstep with ⟨p, hwrite, rfl⟩
        exact ⟨⟨Publication.write_grows hwrite, .refl _, rfl, rfl⟩,
          htemps.write hwrite, hfans⟩
      · rcases Option.map_eq_some_iff.mp hstep with ⟨p, hwrite, rfl⟩
        exact ⟨⟨.refl _, Publication.write_grows hwrite, rfl, rfl⟩, htemps,
          hfans.write hwrite⟩
  | cutShort =>
      simp only [scriptStep] at hstep
      split at hstep
      · cases hstep
      · cases hstep
        exact ⟨⟨.refl _, .refl _, rfl, rfl⟩, htemps, hfans⟩
      · cases hstep
        exact ⟨⟨.refl _, .refl _, rfl, rfl⟩, htemps, hfans⟩
  | mv ok =>
      simp only [scriptStep] at hstep
      split at hstep
      · rcases Option.map_eq_some_iff.mp hstep with ⟨p, hmv, rfl⟩
        exact ⟨⟨Publication.rename_grows hmv, Publication.create_grows _, rfl, rfl⟩,
          htemps.rename hmv, hfans.create⟩
      · rcases Option.map_eq_some_iff.mp hstep with ⟨p, hmv, rfl⟩
        exact ⟨⟨.refl _, Publication.rename_grows hmv, rfl, rfl⟩, htemps,
          hfans.rename hmv⟩
      · cases hstep
  | openTemps => cases hstep
  | readTemps n => cases hstep
  | openFans => cases hstep
  | readFans n => cases hstep

theorem scriptStep_sound {w w' : IpmiWorld} {e : IpmiEvent}
    (htemps : w.temps.Sound) (hfans : w.fans.Sound) (h : ScriptSound w)
    (he : Undisturbed e) (hstep : scriptStep w e = some w') : ScriptSound w' := by
  unfold ScriptSound at h
  cases e with
  | getIpmi round =>
      simp only [scriptStep] at hstep
      split at hstep
      · rename_i hpc
        cases hstep
        rw [hpc] at h
        rcases Publication.create_temp w.temps with ⟨i, hi, hcontent⟩
        refine ⟨w.rounds, i, rfl, ?_, h.right, hi, ?_⟩
        · rw [Publication.create_versions, h.left]
        · rw [hcontent, List.nil_append]
      · cases hstep
  | output n =>
      simp only [scriptStep] at hstep
      split at hstep
      · cases hstep
      · rename_i round rest hpc
        rw [hpc] at h
        rcases h with ⟨before, i, hrounds, hversions, hfan, hi, hcontent⟩
        rcases Option.map_eq_some_iff.mp hstep with ⟨p, hwrite, rfl⟩
        rcases Publication.write_spec htemps hwrite hi with
          ⟨hi', hversions', _, hcontent'⟩
        refine ⟨before, i, hrounds, hversions'.trans hversions, hfan, hi', ?_⟩
        rw [hcontent', List.append_assoc, List.take_append_drop, hcontent]
      · rename_i round rest hpc
        rw [hpc] at h
        rcases h with ⟨before, i, hrounds, htemp, hversions, hi, hcontent⟩
        rcases Option.map_eq_some_iff.mp hstep with ⟨p, hwrite, rfl⟩
        rcases Publication.write_spec hfans hwrite hi with
          ⟨hi', hversions', _, hcontent'⟩
        refine ⟨before, i, hrounds, htemp, hversions'.trans hversions, hi', ?_⟩
        rw [hcontent', List.append_assoc, List.take_append_drop, hcontent]
  | cutShort => exact absurd rfl he.left
  | mv ok =>
      have hok : ok = true := by
        cases ok with
        | true => rfl
        | false => exact absurd rfl he.right
      rw [hok] at hstep
      simp only [scriptStep] at hstep
      split at hstep
      · rename_i round hpc
        rw [hpc] at h
        rcases h with ⟨before, i, hrounds, hversions, hfan, hi, hcontent⟩
        rw [List.append_nil] at hcontent
        rcases Option.map_eq_some_iff.mp hstep with ⟨p, hmv, rfl⟩
        rcases Publication.rename_spec hmv hi with ⟨hversions', _⟩
        rcases Publication.create_temp w.fans with ⟨j, hj, hempty⟩
        refine ⟨before, j, hrounds, ?_, ?_, hj, ?_⟩
        · rw [hversions', hversions, hcontent, hrounds, List.map_append]
          rfl
        · rw [Publication.create_versions, hfan]
        · rw [hempty, List.nil_append]
      · rename_i round hpc
        rw [hpc] at h
        rcases h with ⟨before, i, hrounds, htemp, hversions, hi, hcontent⟩
        rw [List.append_nil] at hcontent
        rcases Option.map_eq_some_iff.mp hstep with ⟨p, hmv, rfl⟩
        rcases Publication.rename_spec hmv hi with ⟨hversions', _⟩
        refine ⟨htemp, ?_⟩
        rw [hversions', hversions, hcontent, hrounds, List.map_append]
        rfl
      · cases hstep
  | openTemps => cases hstep
  | readTemps n => cases hstep
  | openFans => cases hstep
  | readFans n => cases hstep

/-!
# The reader
-/

/-- What has been read of the temperatures is version `k` of their file, or nothing
where there was no file; the fans were at most one version behind. -/
structure TempsRead (w : IpmiWorld) (temps : Option (List Char)) (k : Nat) :
    Prop where
  published : k ≤ w.temps.versions.length
  behind : k ≤ w.fans.versions.length + 1
  text : temps = versionText w.temps.versions k

structure CallSound (w : IpmiWorld) (call : SensorsCall) : Prop where
  temps : TempsRead w call.temps call.tempsMoved
  published : call.fansMoved ≤ w.fans.versions.length
  behind : call.tempsMoved ≤ call.fansMoved + 1
  fans : call.fans = versionText w.fans.versions call.fansMoved

def ReadingSound (w : IpmiWorld) : Prop :=
  match w.sensors with
  | .idle => True
  | .temps moved r =>
      exists reader, w.temps.readers[r]? = some reader ∧
        reader.version + 1 = moved ∧ moved ≤ w.fans.versions.length + 1
  | .between moved temps => TempsRead w temps moved
  | .fans tempsMoved temps moved r =>
      exists reader, TempsRead w temps tempsMoved ∧ w.fans.readers[r]? = some reader ∧
        reader.version + 1 = moved ∧ tempsMoved ≤ moved + 1

theorem TempsRead.grow {w w' : IpmiWorld} {temps : Option (List Char)} {k : Nat}
    (h : TempsRead w temps k) (htemps : w.temps.versions <+: w'.temps.versions)
    (hfans : w.fans.versions <+: w'.fans.versions) : TempsRead w' temps k where
  published := Nat.le_trans h.published htemps.length_le
  behind := Nat.le_trans h.behind (Nat.succ_le_succ hfans.length_le)
  text := by rw [h.text, versionText_prefix htemps h.published]

theorem CallSound.grow {w w' : IpmiWorld} {call : SensorsCall} (h : CallSound w call)
    (htemps : w.temps.versions <+: w'.temps.versions)
    (hfans : w.fans.versions <+: w'.fans.versions) : CallSound w' call where
  temps := h.temps.grow htemps hfans
  published := Nat.le_trans h.published hfans.length_le
  behind := h.behind
  fans := by rw [h.fans, versionText_prefix hfans h.published]

theorem ReadingSound.script {w w' : IpmiWorld} (h : ReadingSound w)
    (hturn : ScriptTurn w w') : ReadingSound w' := by
  have htemps := hturn.temps.versions
  have hfans := hturn.fans.versions
  unfold ReadingSound at h ⊢
  rw [hturn.sensors]
  split
  · trivial
  · rename_i moved r hpc
    rw [hpc] at h
    rcases h with ⟨reader, hreader, hversion, hbehind⟩
    exact ⟨reader, by rw [hturn.temps.readers]; exact hreader, hversion,
      Nat.le_trans hbehind (Nat.succ_le_succ hfans.length_le)⟩
  · rename_i moved temps hpc
    rw [hpc] at h
    exact h.grow htemps hfans
  · rename_i tempsMoved temps moved r hpc
    rw [hpc] at h
    rcases h with ⟨reader, hread, hreader, hversion⟩
    exact ⟨reader, hread.grow htemps hfans,
      by rw [hturn.fans.readers]; exact hreader, hversion⟩

structure SensorsTurn (w w' : IpmiWorld) : Prop where
  temps : w.temps.Looks w'.temps
  fans : w.fans.Looks w'.fans
  script : w'.script = w.script
  rounds : w'.rounds = w.rounds

theorem ScriptSound.sensors {w w' : IpmiWorld} (h : ScriptSound w)
    (hturn : SensorsTurn w w') : ScriptSound w' := by
  unfold ScriptSound at h ⊢
  rw [hturn.script, hturn.rounds, hturn.temps.versions, hturn.fans.versions,
    hturn.temps.temp, hturn.fans.temp]
  simp only [hturn.temps.content, hturn.fans.content]
  exact h

theorem Publication.Looks.refl (p : Publication) : p.Looks p := ⟨rfl, rfl, rfl⟩

theorem versionText_end {p : Publication} (h : p.Sound) {r n : Nat} {reader : OpenFile}
    (hreader : p.readers[r]? = some reader) (hend : p.next reader (n + 1) = []) :
    some reader.got = versionText p.versions (reader.version + 1) ∧
      reader.version + 1 ≤ p.versions.length := by
  have hwhole := h.whole (List.mem_of_getElem? hreader) (Nat.succ_pos n) hend
  exact ⟨hwhole.symm, (List.getElem?_eq_some_iff.mp hwhole).choose⟩

structure ReaderKeeps (w w' : IpmiWorld) : Prop where
  turn : SensorsTurn w w'
  temps : w'.temps.Sound
  fans : w'.fans.Sound
  reading : ReadingSound w'
  calls : forall call, call ∈ w'.calls -> call ∈ w.calls ∨ CallSound w' call

theorem sensorsStep_keeps {w w' : IpmiWorld} {e : IpmiEvent}
    (htemps : w.temps.Sound) (hfans : w.fans.Sound) (hscript : ScriptSound w)
    (h : ReadingSound w) (hstep : sensorsStep w e = some w') : ReaderKeeps w w' := by
  have hlooks := @Publication.Looks.refl
  have hold : forall call, call ∈ w.calls -> call ∈ w.calls ∨ CallSound w' call :=
    fun _ hcall => Or.inl hcall
  unfold ReadingSound at h
  cases e with
  | openTemps =>
      simp only [sensorsStep] at hstep
      split at hstep
      · split at hstep
        · rename_i hnone
          cases hstep
          refine ⟨⟨hlooks _, hlooks _, rfl, rfl⟩, htemps, hfans, ?_, hold⟩
          have hempty := Publication.openFinal_none htemps hnone
          show TempsRead _ none w.temps.versions.length
          rw [hempty]
          exact ⟨Nat.zero_le _, Nat.zero_le _, rfl⟩
        · rename_i p hopen
          cases hstep
          have hsame := Publication.openFinal_looks hopen
          rcases Publication.openFinal_spec htemps hopen with
            ⟨reader, hreader, hversion⟩
          refine ⟨⟨hsame, hlooks _, rfl, rfl⟩, htemps.openFinal hopen, hfans, ?_, hold⟩
          exact ⟨reader, hreader, hversion, hscript.behind.left⟩
      · cases hstep
  | readTemps n =>
      simp only [sensorsStep] at hstep
      split at hstep
      · rename_i moved r hpc
        rw [hpc] at h
        rcases h with ⟨reader, hreader, hversion, hbehind⟩
        rw [hreader] at hstep
        simp only [Option.bind_eq_bind, Option.bind_some] at hstep
        split at hstep
        · rename_i hend
          cases hstep
          refine ⟨⟨hlooks _, hlooks _, rfl, rfl⟩, htemps, hfans, ?_, hold⟩
          rcases versionText_end htemps hreader hend with ⟨htext, hle⟩
          rw [hversion] at htext hle
          exact ⟨hle, hbehind, htext⟩
        · rcases Option.bind_eq_some_iff.mp hstep with ⟨p, hread, hp⟩
          cases hp
          refine ⟨⟨Publication.read_looks hread, hlooks _, rfl, rfl⟩,
            htemps.read hread, hfans, ?_, hold⟩
          have hreader' := Publication.read_spec hreader hread
          unfold ReadingSound
          simp only [hpc]
          exact ⟨_, hreader', hversion, hbehind⟩
      · cases hstep
  | openFans =>
      simp only [sensorsStep] at hstep
      split at hstep
      · rename_i tempsMoved temps hpc
        rw [hpc] at h
        split at hstep
        · rename_i hnone
          cases hstep
          refine ⟨⟨hlooks _, hlooks _, rfl, rfl⟩, htemps, hfans, trivial, ?_⟩
          intro call hcall
          rcases List.mem_append.mp hcall with hin | hnew
          · exact Or.inl hin
          · rw [List.mem_singleton.mp hnew]
            have hempty := Publication.openFinal_none hfans hnone
            refine Or.inr ⟨⟨h.published, h.behind, h.text⟩, Nat.le_refl _, h.behind, ?_⟩
            show none = versionText w.fans.versions w.fans.versions.length
            rw [hempty]
            rfl
        · rename_i p hopen
          cases hstep
          have hsame := Publication.openFinal_looks hopen
          rcases Publication.openFinal_spec hfans hopen with
            ⟨reader, hreader, hversion⟩
          refine ⟨⟨hlooks _, hsame, rfl, rfl⟩, htemps, hfans.openFinal hopen, ?_, hold⟩
          have hfixed : w.fans.versions <+: p.versions := prefix_of_same hsame.versions
          exact ⟨reader, h.grow List.prefix_rfl hfixed, hreader, hversion, h.behind⟩
      · cases hstep
  | readFans n =>
      simp only [sensorsStep] at hstep
      split at hstep
      · rename_i tempsMoved temps moved r hpc
        rw [hpc] at h
        rcases h with ⟨reader, hread, hreader, hversion, hbehind⟩
        rw [hreader] at hstep
        simp only [Option.bind_eq_bind, Option.bind_some] at hstep
        split at hstep
        · rename_i hend
          cases hstep
          refine ⟨⟨hlooks _, hlooks _, rfl, rfl⟩, htemps, hfans, trivial, ?_⟩
          intro call hcall
          rcases List.mem_append.mp hcall with hin | hnew
          · exact Or.inl hin
          · rw [List.mem_singleton.mp hnew]
            rcases versionText_end hfans hreader hend with ⟨htext, hle⟩
            rw [hversion] at htext hle
            exact Or.inr ⟨⟨hread.published, hread.behind, hread.text⟩, hle, hbehind, htext⟩
        · rcases Option.bind_eq_some_iff.mp hstep with ⟨p, hgot, hp⟩
          cases hp
          have hsame := Publication.read_looks hgot
          refine ⟨⟨hlooks _, hsame, rfl, rfl⟩, htemps, hfans.read hgot, ?_, hold⟩
          have hreader' := Publication.read_spec hreader hgot
          have hfixed : w.fans.versions <+: p.versions := prefix_of_same hsame.versions
          unfold ReadingSound
          simp only [hpc]
          exact ⟨_, hread.grow List.prefix_rfl hfixed, hreader', hversion, hbehind⟩
      · cases hstep
  | getIpmi round => cases hstep
  | output n => cases hstep
  | cutShort => cases hstep
  | mv ok => cases hstep

/-!
# Both at once
-/

structure IpmiSound (w : IpmiWorld) : Prop where
  temps : w.temps.Sound
  fans : w.fans.Sound
  script : ScriptSound w
  reading : ReadingSound w
  calls : forall call, call ∈ w.calls -> CallSound w call

theorem ipmiSound_start : IpmiSound ipmiStart where
  temps := Publication.sound_initial
  fans := Publication.sound_initial
  script := ⟨rfl, rfl⟩
  reading := trivial
  calls := fun _ h => nomatch h

theorem IpmiSound.step {w w' : IpmiWorld} {e : IpmiEvent} (h : IpmiSound w)
    (he : Undisturbed e) (hstep : ipmiStep w e = some w') : IpmiSound w' := by
  rcases Option.or_eq_some_iff.mp hstep with hscript | ⟨_, hsensors⟩
  · rcases scriptStep_turn h.temps h.fans hscript with ⟨hturn, htemps, hfans⟩
    constructor
    case temps => exact htemps
    case fans => exact hfans
    case script => exact scriptStep_sound h.temps h.fans h.script he hscript
    case reading => exact h.reading.script hturn
    case calls =>
      intro call hcall
      rw [hturn.calls] at hcall
      exact (h.calls call hcall).grow hturn.temps.versions hturn.fans.versions
  · have hkeeps := sensorsStep_keeps h.temps h.fans h.script h.reading hsensors
    have htemps := hkeeps.turn.temps.versions
    have hfans := hkeeps.turn.fans.versions
    constructor
    case temps => exact hkeeps.temps
    case fans => exact hkeeps.fans
    case script => exact h.script.sensors hkeeps.turn
    case reading => exact hkeeps.reading
    case calls =>
      intro call hcall
      rcases hkeeps.calls call hcall with hold | hnew
      · exact (h.calls call hold).grow (prefix_of_same htemps) (prefix_of_same hfans)
      · exact hnew

theorem ipmiSound_run {evs : List IpmiEvent} {w : IpmiWorld}
    (hrun : runFrom ipmiStep ipmiStart evs = some w)
    (hevs : forall e, e ∈ evs -> Undisturbed e) : IpmiSound w :=
  runFrom_invariant (fun _ _ _ hs he hstep => hs.step he hstep) ipmiSound_start
    (stepsMeet_of_mem hevs) hrun

/-- What a call reads, by the rounds that the two files had been moved for when it
opened them: the last of them, whole.  A file is absent exactly before its first. -/
structure ReadsLastRounds (rounds : List IpmiRound) (call : SensorsCall) : Prop where
  tempsMoved : call.tempsMoved ≤ rounds.length
  fansMoved : call.fansMoved ≤ rounds.length
  behind : call.tempsMoved ≤ call.fansMoved + 1
  temps : call.temps = versionText (rounds.map IpmiRound.tempText) call.tempsMoved
  fans : call.fans = versionText (rounds.map IpmiRound.fanText) call.fansMoved
  noTemps : call.temps = none <-> call.tempsMoved = 0
  noFans : call.fans = none <-> call.fansMoved = 0

/-- Whatever the script does while `get_ipmi_sensors` reads, each call reads of each
file what `ipmitool` printed in the last round whose `mv` was done when the call opened
that file, whole; for the fans this is at most one round behind the temperatures. -/
theorem sensors_read_rounds {evs : List IpmiEvent} {w : IpmiWorld}
    (hrun : runFrom ipmiStep ipmiStart evs = some w)
    (hevs : forall e, e ∈ evs -> Undisturbed e) :
    forall call, call ∈ w.calls -> ReadsLastRounds w.rounds call := by
  intro call hcall
  have hsound := ipmiSound_run hrun hevs
  rcases hsound.script.behind with ⟨_, htemps, hfans⟩
  have hcallSound := hsound.calls call hcall
  have htempsMoved := Nat.le_trans hcallSound.temps.published htemps.length_le
  have hfansMoved := Nat.le_trans hcallSound.published hfans.length_le
  have htempsText : call.temps =
      versionText (w.rounds.map IpmiRound.tempText) call.tempsMoved := by
    rw [hcallSound.temps.text, versionText_prefix htemps hcallSound.temps.published]
  have hfansText : call.fans =
      versionText (w.rounds.map IpmiRound.fanText) call.fansMoved := by
    rw [hcallSound.fans, versionText_prefix hfans hcallSound.published]
  constructor
  case tempsMoved =>
    rw [List.length_map] at htempsMoved
    exact htempsMoved
  case fansMoved =>
    rw [List.length_map] at hfansMoved
    exact hfansMoved
  case behind => exact hcallSound.behind
  case temps => exact htempsText
  case fans => exact hfansText
  case noTemps =>
    rw [htempsText]
    exact versionText_none_iff htempsMoved
  case noFans =>
    rw [hfansText]
    exact versionText_none_iff hfansMoved

def lateCall : List IpmiEvent :=
  [.getIpmi ⟨"CPU|1|ok|3.1|41 degrees C\n".toList, []⟩, .output 100, .mv true,
    .openTemps, .readTemps 3, .mv true, .getIpmi ⟨[], []⟩, .mv true,
    .readTemps 100, .readTemps 0, .openFans, .mv true, .readFans 0]

theorem sensors_read_rounds_lateCall :
    exists w, runFrom ipmiStep ipmiStart lateCall = some w ∧
      w.calls = [⟨1, some "CPU|41 degrees C\n".toList, 1, some []⟩] ∧
      forall call, call ∈ w.calls -> ReadsLastRounds w.rounds call := by
  have hrun : exists w, runFrom ipmiStep ipmiStart lateCall = some w ∧
      w.calls = [⟨1, some "CPU|41 degrees C\n".toList, 1, some []⟩] :=
    ⟨_, rfl, by decide⟩
  rcases hrun with ⟨w, hrun, hcalls⟩
  exact ⟨w, hrun, hcalls, sensors_read_rounds hrun (by decide)⟩

end Scripts
end Breakin
