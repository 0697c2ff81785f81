import AksFirmware.ConfigFlash
import AksFirmware.Runs

/-!
# Configuration commands

The record is set by requests to the web server (`CGI_do_cmd`) and by AT commands.
Both hand on the text of an argument as they got it.

A copy into the record is modelled with all the bytes it writes, wherever it ends.  A
text that does not fit a buffer on the stack has no outcome.

`forceToReboot` of `CGI_do_cmd` is left out where it is only read together with
`update_cnt`, which stays zero.
-/

namespace AksFirmware.ConfigCommands

open ByteMemory CText WebConfig ConfigFlash

def CGI_RC_OK : Int := 0
def CGI_RC_CFG_OK : Int := 1
def CGI_RC_REBOOT : Int := 3
def CGI_RC_CFG_ERR : Int := -2

def CFG_POE_PASS : Nat := CFG_ID_ 7 4 CFG_TYPE_STR 0
def CFG_POE_USER : Nat := CFG_ID_ 7 6 CFG_TYPE_STR 0

/-- `sprintf(buf, "%s", s)` into an array on the stack. -/
def stackText (size : Nat) (s : Text) : Option Text := if s.length < size then some s else none

def setAll (g : Mem) (sets : List (Nat × Text)) : Mem :=
  sets.foldl (fun g w => (ratpac_set_str g w.1 w.2).2) g

/-- The calls of `ratpac_set_str` before a `write_data_to_flash`. -/
def saveAll (s : ConfigStore) (sets : List (Nat × Text)) : ConfigStore :=
  write_data_to_flash { s with g_web_config := setAll s.g_web_config sets }

/-- `ratpac_get_str` for an id that does not read `client_valid_num`. -/
def configText (s : ConfigStore) (id : Nat) : Text := (ratpac_get_str ⟨s.g_web_config, 0⟩ id).2

/-! ### The requests of the web server -/

/-- What `WEB_query` finds in a request: the variable `CMD` and the variables `SETi`. -/
structure Request where
  CMD : Option Text
  SET : Nat → Option Text

/-- The code that `CGI_do_cmd` calls and that does not touch the record. -/
structure Platform where
  ps_cgi_cmds : Text → Option Int
  as_cgi_cmds : Text → Option Int
  CFG_set_str : Nat → Text → Int

/-- The return code, whether a reboot was asked for, and the record and the flash. -/
structure Reply where
  rc : Int
  reboot : Bool
  store : ConfigStore

/-- The id and the value in a `SETi` variable; none without a `=` behind the id. -/
def setArg (cmdv : Text) : Option (Nat × Text) :=
  match cut 0x3d cmdv with
  | some (name, val) => if name = [] then none else some ((atoi name % 0x100000000).toNat, val)
  | none => none

/-- The value of a text option ends at the first line break. -/
def setValue (id : Nat) (val : Text) : Text :=
  if CFG_ID_TYPE id = CFG_TYPE_STR ∧ id ≠ CFG_POE_USER ∧ id ≠ CFG_POE_PASS then
    val.takeWhile fun c => c ≠ 0x0a ∧ c ≠ 0x0d
  else val

/-- The variables of the loop over the `SETi`. -/
structure SetState where
  rc : Int
  g_web_config : Mem
  sACNforceToReboot : Bool

/-- One turn of the loop, for an id other than 0. -/
def setTurn (P : Platform) (id : Nat) (val : Text) (st : SetState) : SetState :=
  let answer := ratpac_set_str st.g_web_config id (setValue id val)
  let rc := if answer.1 = -1 then P.CFG_set_str id (setValue id val) else answer.1
  { rc := if 0 ≤ rc then CGI_RC_CFG_OK else rc
    g_web_config := answer.2
    sACNforceToReboot := st.sACNforceToReboot || (id = CFG_SACN_UNIV || id = CFG_PROTNAME) }

def setLoop (P : Platform) : List Text → SetState → SetState
  | [], st => st
  | cmdv :: rest, st =>
      match setArg cmdv with
      | none => { st with rc := CGI_RC_CFG_ERR }
      | some (id, val) => setLoop P rest (if id = 0 then st else setTurn P id val st)

/-- The `SETi` of a request, up to the first that is missing. -/
def Request.sets (req : Request) : List Text :=
  (((List.range 50).map req.SET).takeWhile Option.isSome).reduceOption

def ok (s : ConfigStore) : Reply := ⟨CGI_RC_OK, false, s⟩

/-- `tmp1 = strchr(cmd, '=')`: a command without argument changes nothing. -/
def withArgument (cmd : Text) (s : ConfigStore) (body : Text → Option Reply) : Option Reply :=
  match cut 0x3d cmd with
  | none => some (ok s)
  | some (_, tmp1) => body tmp1

def SET_UNIVERSE (cmd : Text) (s : ConfigStore) : Option Reply :=
  withArgument cmd s fun tmp1 =>
    match cut 0x2d tmp1 with
    | none => some (ok s)
    | some (tmp1, tmp2) => do
        let art_subnet ← stackText 4 tmp1
        let uniNo ← stackText 4 tmp2
        some (ok (saveAll s [(CFG_AKS_UNIVERSE, uniNo), (CFG_AKS_SUBNET, art_subnet)]))

/-- The four parts of the argument of `SET_PROTO_UNIVERSE`. -/
def protoParts (tmp1 : Text) : Option (Text × Text × Text × Text) := do
  let (tmp1, tmp2) ← cut 0x2d tmp1
  let (tmp2, tmp3) ← cut 0x2d tmp2
  let (tmp3, tmp4) ← cut 0x2d tmp3
  some (tmp1, tmp2, tmp3, tmp4)

def SET_PROTO_UNIVERSE (cmd : Text) (s : ConfigStore) : Option Reply :=
  withArgument cmd s fun tmp1 =>
    match protoParts tmp1 with
    | none => some (ok s)
    | some (tmp1, tmp2, tmp3, tmp4) => do
        let pre_prot ← stackText 4 (configText s CFG_PROTNAME)
        let pre_suni ← stackText 8 (configText s CFG_SACN_UNIV)
        let art_subnet ← stackText 4 tmp1
        let uniNo ← stackText 4 tmp2
        let suni ← stackText 8 tmp3
        let prot ← stackText 4 tmp4
        let forceToReboot := strcmp pre_prot prot ≠ 0 ||
          (pre_prot.head? = some 0x31 && strcmp pre_suni suni ≠ 0)
        some ⟨CGI_RC_REBOOT, forceToReboot, saveAll s [(CFG_AKS_UNIVERSE, uniNo),
          (CFG_AKS_SUBNET, art_subnet), (CFG_SACN_UNIV, suni), (CFG_PROTNAME, prot)]⟩

def RENAME_AKS (cmd : Text) (s : ConfigStore) : Option Reply :=
  withArgument cmd s fun tmp1 => do
    let aks_node_name ← stackText 24 tmp1
    some (ok (saveAll s [(CFG_AKS_NAME, aks_node_name.map fun c => if c = 0x3f then 0x20 else c)]))

/-- A command that copies its argument to a buffer and from there to one option. -/
def setOption (size id : Nat) (cmd : Text) (s : ConfigStore) : Option Reply :=
  withArgument cmd s fun tmp1 => do
    let buf ← stackText size tmp1
    some (ok (saveAll s [(id, buf)]))

def SET_SORT : Text → ConfigStore → Option Reply := setOption 8 CFG_SORT_BY
def SET_TIMO_POWER : Text → ConfigStore → Option Reply := setOption 8 CFG_TIMO_POWER
def SET_LED_COLOR : Text → ConfigStore → Option Reply := setOption 8 CFG_LED_COLOR

def AUTO_SACN_UNIV (cmd : Text) (s : ConfigStore) : Option Reply :=
  withArgument cmd s fun tmp1 => do
    let sacn_num ← stackText 16 tmp1
    let s := saveAll s [(CFG_SACN_UNIV, sacn_num)]
    let pre_prot ← stackText 4 (configText s CFG_PROTNAME)
    some ⟨CGI_RC_REBOOT, pre_prot.head? = some 0x31, s⟩

def artnetParts (arnet_num : Text) : Text × Text :=
  let artnum := (atoi arnet_num % 0x100000000).toNat
  (decimal (artnum &&& 0xf), decimal ((artnum >>> 4) &&& 0xf))

def AUTO_ARTNET_UNIV (cmd : Text) (s : ConfigStore) : Option Reply :=
  withArgument cmd s fun tmp1 => do
    let arnet_num ← stackText 8 tmp1
    let art_subnet ← stackText 4 (artnetParts arnet_num).2
    let uniNo ← stackText 4 (artnetParts arnet_num).1
    some (ok (saveAll s [(CFG_AKS_UNIVERSE, uniNo), (CFG_AKS_SUBNET, art_subnet)]))

/-- The commands that `CGI_do_cmd` looks for in the text of `CMD`. -/
inductive Handler where
  | SET_UNIVERSE | SET_PROTO_UNIVERSE | RENAME_AKS | SET_SORT | SET_TIMO_POWER
  | SET_LED_COLOR | AUTO_SACN_UNIV | AUTO_ARTNET_UNIV
deriving DecidableEq, Repr

/-- In the order of the source. -/
def Handler.all : List Handler :=
  [.SET_UNIVERSE, .SET_PROTO_UNIVERSE, .RENAME_AKS, .SET_SORT, .SET_TIMO_POWER,
    .SET_LED_COLOR, .AUTO_SACN_UNIV, .AUTO_ARTNET_UNIV]

def Handler.name : Handler → String
  | .SET_UNIVERSE => "SET_UNIVERSE"
  | .SET_PROTO_UNIVERSE => "SET_PROTO_UNIVERSE"
  | .RENAME_AKS => "RENAME_AKS"
  | .SET_SORT => "SET_SORT"
  | .SET_TIMO_POWER => "SET_TIMO_POWER"
  | .SET_LED_COLOR => "SET_LED_COLOR"
  | .AUTO_SACN_UNIV => "AUTO_SACN_UNIV"
  | .AUTO_ARTNET_UNIV => "AUTO_ARTNET_UNIV"

def Handler.run : Handler → Text → ConfigStore → Option Reply
  | .SET_UNIVERSE => ConfigCommands.SET_UNIVERSE
  | .SET_PROTO_UNIVERSE => ConfigCommands.SET_PROTO_UNIVERSE
  | .RENAME_AKS => ConfigCommands.RENAME_AKS
  | .SET_SORT => ConfigCommands.SET_SORT
  | .SET_TIMO_POWER => ConfigCommands.SET_TIMO_POWER
  | .SET_LED_COLOR => ConfigCommands.SET_LED_COLOR
  | .AUTO_SACN_UNIV => ConfigCommands.AUTO_SACN_UNIV
  | .AUTO_ARTNET_UNIV => ConfigCommands.AUTO_ARTNET_UNIV

/-- The first `strstr(cmd, ..)` that finds its command anywhere in the text. -/
def handlerOf (cmd : Text) : Option Handler :=
  Handler.all.find? fun h => strstr cmd (ascii h.name)

/-- The end of `CGI_do_cmd`, from `ReadyToOut` on. -/
def readyToOut (P : Platform) (cmd : Text) (rc : Int) (sACNforceToReboot : Bool)
    (s : ConfigStore) : Reply :=
  let s' := if rc = CGI_RC_CFG_OK then write_data_to_flash s else s
  let after : Int × Bool :=
    if rc ≠ CGI_RC_CFG_OK ∧ rc < 0 then (rc, false)
    else
      let rc := (P.as_cgi_cmds cmd).getD rc
      if cmd = ascii "SYS_UPG" then (CGI_RC_REBOOT, true) else (rc, false)
  if sACNforceToReboot then ⟨CGI_RC_REBOOT, true, s'⟩ else ⟨after.1, after.2, s'⟩

/-- The commands that jump to `ReadyToOut` before the settings are read. -/
def direct : List Text :=
  [ascii "WIRELESS_SECURITY", ascii "WIRELESS_SIMPLE_CONFIG_DEVICE", ascii "ACL"]

def CGI_do_cmd (P : Platform) (req : Request) (s : ConfigStore) : Option Reply :=
  match req.CMD with
  | none => some (ok s)
  | some cmd =>
      let rc := (P.ps_cgi_cmds cmd).getD 0
      if cmd ∈ direct then some (readyToOut P cmd rc false s)
      else if rc < 0 then some ⟨rc, false, s⟩
      else
        let st := setLoop P req.sets ⟨rc, s.g_web_config, false⟩
        let s := { s with g_web_config := st.g_web_config }
        if cmd = ascii "CONSTELLATION_REFRESH" then some (ok s)
        else
          match handlerOf cmd with
          | some h => h.run cmd s
          | none => some (readyToOut P cmd st.rc st.sACNforceToReboot s)

/-! ### AT commands -/

/-- The return code, the text of the answer, and the record and the flash. -/
structure AtReply where
  rc : Int
  rsp : Text
  store : ConfigStore

/-- `cmd_web_para_universe` and its like: an option by its name and the range of its value. -/
def cmd_web_para (name : String) (lo hi : Int) (argv : List Text) (s : ConfigStore) :
    Option AtReply :=
  match argv with
  | [] => do
      let temp_buf ← stackText 100 (configText s (CFG_str2id name))
      some ⟨0, ascii "=" ++ temp_buf, s⟩
  | [arg] =>
      if lo ≤ atoi arg ∧ atoi arg ≤ hi then some ⟨0, [], saveAll s [(CFG_str2id name, arg)]⟩
      else some ⟨-1, [], s⟩
  | _ => some ⟨-1, [], s⟩

/-- Any name is accepted. -/
def cmd_web_para_node_name (argv : List Text) (s : ConfigStore) : Option AtReply :=
  match argv with
  | [] => do
      let temp_buf ← stackText 100 (configText s (CFG_str2id "AKS_NAME"))
      some ⟨0, ascii "=" ++ temp_buf, s⟩
  | [arg] => some ⟨0, [], saveAll s [(CFG_str2id "AKS_NAME", arg)]⟩
  | _ => some ⟨-1, [], s⟩

def cmd_web_para_universe := cmd_web_para "AKS_UNIVERSE" 0 9
def cmd_web_para_timopower := cmd_web_para "TIMO_POWER" 0 5
def cmd_web_para_channelwidth := cmd_web_para "AKS_CHANNEL_WIDTH" 9 18
def cmd_web_para_secondchannel := cmd_web_para "AKS_SECOND_CHANNEL" 0 11
def cmd_web_para_bitsetting := cmd_web_para "AKS_BIT_SETTINGS" 0 1

def cmd_web_para_default (build_img : Text) (argv : List Text) (s : ConfigStore) :
    Option AtReply :=
  match argv with
  | [_] => some ⟨0, [], web_flash_data_init build_img 1 s⟩
  | _ => some ⟨-1, [], s⟩

/-- `reload_cmd_web_para_universe` and its like: the argument goes straight to a member. -/
def reload_cmd_web_para (f : Field) (lo hi : Int) (argv : List Text) (s : ConfigStore) :
    Option AtReply :=
  match argv with
  | [] => some ⟨0, ascii "=" ++ fieldText s.g_web_config f, s⟩
  | [arg] =>
      if lo ≤ atoi arg ∧ atoi arg ≤ hi then
        some ⟨0, [], write_data_to_flash { s with g_web_config := setField s.g_web_config f arg }⟩
      else some ⟨-1, [], s⟩
  | _ => some ⟨-1, [], s⟩

/-- Any name is accepted, of any length. -/
def reload_cmd_web_para_node_name (argv : List Text) (s : ConfigStore) : Option AtReply :=
  match argv with
  | [] => some ⟨0, ascii "=" ++ fieldText s.g_web_config .name, s⟩
  | [arg] =>
      some ⟨0, [], write_data_to_flash { s with g_web_config := setField s.g_web_config .name arg }⟩
  | _ => some ⟨-1, [], s⟩

def reload_cmd_web_para_universe := reload_cmd_web_para .universe 0 9
def reload_cmd_web_para_timopower := reload_cmd_web_para .timopower 0 5
def reload_cmd_web_para_channelwidth := reload_cmd_web_para .channelWidth 9 18
def reload_cmd_web_para_secondchannel := reload_cmd_web_para .secondChannel 0 11
def reload_cmd_web_para_bitsetting := reload_cmd_web_para .bitSetting 0 1

/-- The entries of `user_define_at_cmds_table` that concern the record. -/
inductive AtCommand where
  | NODENAME | UNIVERSE | TIMOPOWER | CHANNELWIDTH | SECONDCHANNEL | BITSETTING | DEFAULT
  | WNODENAME | WUNIVERSE | WTIMOPOWER | WCHANNELWIDTH | WSECONDCHANNEL | WBITSETTING
deriving DecidableEq, Repr

def AtCommand.run (build_img : Text) : AtCommand → List Text → ConfigStore → Option AtReply
  | .NODENAME => cmd_web_para_node_name
  | .UNIVERSE => cmd_web_para_universe
  | .TIMOPOWER => cmd_web_para_timopower
  | .CHANNELWIDTH => cmd_web_para_channelwidth
  | .SECONDCHANNEL => cmd_web_para_secondchannel
  | .BITSETTING => cmd_web_para_bitsetting
  | .DEFAULT => cmd_web_para_default build_img
  | .WNODENAME => reload_cmd_web_para_node_name
  | .WUNIVERSE => reload_cmd_web_para_universe
  | .WTIMOPOWER => reload_cmd_web_para_timopower
  | .WCHANNELWIDTH => reload_cmd_web_para_channelwidth
  | .WSECONDCHANNEL => reload_cmd_web_para_secondchannel
  | .WBITSETTING => reload_cmd_web_para_bitsetting

/-! ### Sequences of commands -/

inductive Command where
  | cgi (P : Platform) (req : Request)
  | atcmd (c : AtCommand) (argv : List Text)

def step (build_img : Text) (s : ConfigStore) : Command → Option ConfigStore
  | .cgi P req => (CGI_do_cmd P req s).map (·.store)
  | .atcmd c argv => (c.run build_img argv s).map (·.store)

/-! ### What a command copies -/

/-- A text and the member it is copied to. -/
abbrev Copy := Field × Text

def applyCopies (g : Mem) (ws : List Copy) : Mem := ws.foldl (fun g w => setField g w.1 w.2) g

/-- The copy that `ratpac_set_str` makes. -/
def setCopy (w : Nat × Text) : List Copy :=
  match setCases.lookup w.1 with
  | some (f, limit) => [(f, limited limit w.2)]
  | none => []

def setFields (id : Nat) : List Field := (setCases.lookup id).toList.map (·.1)

/-- The calls of `ratpac_set_str` in the loop over the `SETi`. -/
def loopSets : List Text → List (Nat × Text)
  | [] => []
  | cmdv :: rest =>
      match setArg cmdv with
      | none => []
      | some (id, val) => if id = 0 then loopSets rest else (id, setValue id val) :: loopSets rest

/-- The buffers on the stack with the texts printed to them, and the options that are set,
for the argument of a command. -/
def Handler.texts : Handler → Text → List (Nat × Text) × List (Nat × Text)
  | .SET_UNIVERSE, tmp1 =>
      match cut 0x2d tmp1 with
      | none => ([], [])
      | some (sub, uni) =>
          ([(4, sub), (4, uni)], [(CFG_AKS_UNIVERSE, uni), (CFG_AKS_SUBNET, sub)])
  | .SET_PROTO_UNIVERSE, tmp1 =>
      match protoParts tmp1 with
      | none => ([], [])
      | some (sub, uni, suni, prot) =>
          ([(4, sub), (4, uni), (8, suni), (4, prot)],
            [(CFG_AKS_UNIVERSE, uni), (CFG_AKS_SUBNET, sub), (CFG_SACN_UNIV, suni),
              (CFG_PROTNAME, prot)])
  | .RENAME_AKS, tmp1 =>
      ([(24, tmp1)], [(CFG_AKS_NAME, tmp1.map fun c => if c = 0x3f then 0x20 else c)])
  | .SET_SORT, tmp1 => ([(8, tmp1)], [(CFG_SORT_BY, tmp1)])
  | .SET_TIMO_POWER, tmp1 => ([(8, tmp1)], [(CFG_TIMO_POWER, tmp1)])
  | .SET_LED_COLOR, tmp1 => ([(8, tmp1)], [(CFG_LED_COLOR, tmp1)])
  | .AUTO_SACN_UNIV, tmp1 => ([(16, tmp1)], [(CFG_SACN_UNIV, tmp1)])
  | .AUTO_ARTNET_UNIV, tmp1 =>
      ([(8, tmp1)],
        [(CFG_AKS_UNIVERSE, (artnetParts tmp1).1), (CFG_AKS_SUBNET, (artnetParts tmp1).2)])

/-- The same for the text of `CMD`; a command without argument copies nothing. -/
def Handler.textsOf (h : Handler) (cmd : Text) : List (Nat × Text) × List (Nat × Text) :=
  match cut 0x3d cmd with
  | none => ([], [])
  | some (_, tmp1) => h.texts tmp1

def Handler.fields : Handler → List Field
  | .SET_UNIVERSE => [.universe, .subnet]
  | .SET_PROTO_UNIVERSE => [.universe, .subnet, .sacn_universe, .protname]
  | .RENAME_AKS => [.name]
  | .SET_SORT => [.sort_by]
  | .SET_TIMO_POWER => [.timopower]
  | .SET_LED_COLOR => [.led_color]
  | .AUTO_SACN_UNIV => [.sacn_universe]
  | .AUTO_ARTNET_UNIV => [.universe, .subnet]

/-- The text of `CMD`, if the request gets as far as the settings. -/
def Request.accepted (P : Platform) (req : Request) : Option Text :=
  req.CMD.filter fun cmd => cmd ∉ direct ∧ 0 ≤ (P.ps_cgi_cmds cmd).getD 0

def Request.handler (P : Platform) (req : Request) : Option (Handler × Text) :=
  (req.accepted P).bind fun cmd =>
    if cmd = ascii "CONSTELLATION_REFRESH" then none else (handlerOf cmd).map fun h => (h, cmd)

def oneCopy (argv : List Text) (copy : Text → List Copy) : List Copy :=
  match argv with
  | [arg] => copy arg
  | _ => []

def rangeCopy (lo hi : Int) (argv : List Text) (f : Field) : List Copy :=
  oneCopy argv fun arg => if lo ≤ atoi arg ∧ atoi arg ≤ hi then [(f, arg)] else []

/-- `AKS_BIT_SETTINGS` is not a registered name, so `BITSETTING` sets nothing. -/
def AtCommand.copies : AtCommand → List Text → List Copy
  | .NODENAME, argv => oneCopy argv fun arg => [(.name, clip 16 arg)]
  | .UNIVERSE, argv => rangeCopy 0 9 argv .universe
  | .TIMOPOWER, argv => rangeCopy 0 5 argv .timopower
  | .CHANNELWIDTH, argv => rangeCopy 9 18 argv .channelWidth
  | .SECONDCHANNEL, argv => rangeCopy 0 11 argv .secondChannel
  | .BITSETTING, _ => []
  | .DEFAULT, _ => []
  | .WNODENAME, argv => oneCopy argv fun arg => [(.name, arg)]
  | .WUNIVERSE, argv => rangeCopy 0 9 argv .universe
  | .WTIMOPOWER, argv => rangeCopy 0 5 argv .timopower
  | .WCHANNELWIDTH, argv => rangeCopy 9 18 argv .channelWidth
  | .WSECONDCHANNEL, argv => rangeCopy 0 11 argv .secondChannel
  | .WBITSETTING, argv => rangeCopy 0 1 argv .bitSetting

def AtCommand.fields : AtCommand → List Field
  | .NODENAME => [.name]
  | .UNIVERSE => [.universe]
  | .TIMOPOWER => [.timopower]
  | .CHANNELWIDTH => [.channelWidth]
  | .SECONDCHANNEL => [.secondChannel]
  | .BITSETTING => [.bitSetting]
  | .DEFAULT => Field.all
  | .WNODENAME => [.name]
  | .WUNIVERSE => [.universe]
  | .WTIMOPOWER => [.timopower]
  | .WCHANNELWIDTH => [.channelWidth]
  | .WSECONDCHANNEL => [.secondChannel]
  | .WBITSETTING => [.bitSetting]

/-- The members that a command names: those of the ids of its `SETi`, and those of the
command in front of the `=`. -/
def Command.named : Command → List Field
  | .cgi _ req =>
      (req.sets.flatMap fun cmdv => (setArg cmdv).toList.flatMap fun a => setFields a.1) ++
      req.CMD.toList.flatMap fun cmd =>
        (Handler.all.filter fun h => strstr (cmd.takeWhile (· ≠ 0x3d)) (ascii h.name)).flatMap
          Handler.fields
  | .atcmd c _ => c.fields

def Command.copies : Command → List Copy
  | .cgi P req =>
      ((req.accepted P).toList.flatMap fun _ => (loopSets req.sets).flatMap setCopy) ++
      (req.handler P).toList.flatMap fun p => (p.1.textsOf p.2).2.flatMap setCopy
  | .atcmd c argv => c.copies argv

/-- The texts of the command that are printed to buffers on the stack. -/
def Command.buffers : Command → List (Nat × Text)
  | .cgi P req => (req.handler P).toList.flatMap fun p => (p.1.textsOf p.2).1
  | .atcmd _ _ => []

/-- The command that copies something is not merely found in the argument of another. -/
def Command.OwnName : Command → Prop
  | .cgi P req => ∀ p ∈ req.handler P, (p.1.textsOf p.2).2 ≠ [] →
      strstr (p.2.takeWhile (· ≠ 0x3d)) (ascii p.1.name) = true
  | .atcmd _ _ => True

/-- Every text that the command copies fits the array it is copied to, and the argument
does not hold the name of another command. -/
structure Command.Fits (c : Command) : Prop where
  copies : ∀ w ∈ c.copies, w.2.length < w.1.size
  buffers : ∀ b ∈ c.buffers, b.2.length < b.1
  name : c.OwnName

/-! ### The effect of the copies -/

theorem applyCopies_append (g : Mem) (ws ws' : List Copy) :
    applyCopies g (ws ++ ws') = applyCopies (applyCopies g ws) ws' := List.foldl_append ..

/-- A byte that no copy covers, its end included. -/
theorem applyCopies_outside {ws : List Copy} {x : Nat}
    (hws : ∀ w ∈ ws, x < w.1.offset ∨ w.1.offset + w.2.length < x) (g : Mem) :
    applyCopies g ws x = g x := by
  induction ws generalizing g with
  | nil => rfl
  | cons w ws ih =>
    obtain ⟨hw, hws⟩ := List.forall_mem_cons.mp hws
    rw [applyCopies, List.foldl_cons]
    exact (ih hws _).trans (storeText_of_outside g w.2 hw)

theorem ratpac_set_str_eq (g : Mem) (w : Nat × Text) :
    (ratpac_set_str g w.1 w.2).2 = applyCopies g (setCopy w) := by
  unfold ratpac_set_str setCopy
  cases setCases.lookup w.1 with
  | none => rfl
  | some p => rfl

theorem setAll_eq (g : Mem) (sets : List (Nat × Text)) :
    setAll g sets = applyCopies g (sets.flatMap setCopy) := by
  induction sets generalizing g with
  | nil => rfl
  | cons w sets ih =>
    rw [List.flatMap_cons, applyCopies_append, ← ratpac_set_str_eq, ← ih]
    rfl

theorem setCopy_isText {w : Nat × Text} {c : Copy} (h : c ∈ setCopy w) : c.1.isText = true := by
  have hall : ∀ p ∈ setCases, p.2.1.isText = true := by decide
  unfold setCopy at h
  split at h
  · rename_i f limit hcase
    obtain rfl := List.mem_singleton.mp h
    obtain ⟨before, after, hsplit, -⟩ := List.lookup_eq_some_iff.mp hcase
    exact hall (w.1, f, limit) (hsplit ▸ List.mem_append_right before List.mem_cons_self)
  · cases h

/-- Copies that fit leave the texts terminated and the other members alone. -/
theorem applyCopies_spec {ws : List Copy} (hfit : ∀ w ∈ ws, w.2.length < w.1.size) (g : Mem) :
    (TextsTerminated g → TextsTerminated (applyCopies g ws)) ∧
      ∀ f, (∀ w ∈ ws, w.1 ≠ f) → ∀ i < f.size,
        applyCopies g ws (f.offset + i) = g (f.offset + i) := by
  induction ws generalizing g with
  | nil => exact ⟨id, fun _ _ _ _ => rfl⟩
  | cons w ws ih =>
    have hlen := hfit w List.mem_cons_self
    obtain ⟨hterm, hframe⟩ :=
      ih (fun w' hw' => hfit w' (List.mem_cons_of_mem w hw')) (setField g w.1 w.2)
    refine ⟨fun h => hterm (setField_terminated hlen h), fun f hf i hi => ?_⟩
    exact (hframe f (fun w' hw' => hf w' (List.mem_cons_of_mem w hw')) i hi).trans
      (setField_other hlen (hf w List.mem_cons_self).symm hi)

/-- The record holds what the copies leave, but for the checksum. -/
def Written (s : ConfigStore) (ws : List Copy) (s' : ConfigStore) : Prop :=
  ∀ x, 1 ≤ x → s'.g_web_config x = applyCopies s.g_web_config ws x

theorem Written.refl (s : ConfigStore) : Written s [] s := fun _ _ => rfl

theorem written_write {s : ConfigStore} {g : Mem} {ws : List Copy}
    (h : g = applyCopies s.g_web_config ws) :
    Written s ws (write_data_to_flash { s with g_web_config := g }) := by
  intro x hx
  rw [write_keeps _ hx, h]

theorem saveAll_written (s : ConfigStore) (sets : List (Nat × Text)) :
    Written s (sets.flatMap setCopy) (saveAll s sets) := written_write (setAll_eq _ _)

theorem setLoop_copies (P : Platform) (cmdvs : List Text) (st : SetState) :
    (setLoop P cmdvs st).g_web_config =
      applyCopies st.g_web_config ((loopSets cmdvs).flatMap setCopy) := by
  induction cmdvs generalizing st with
  | nil => rfl
  | cons cmdv cmdvs ih =>
    unfold setLoop loopSets
    cases setArg cmdv with
    | none => rfl
    | some a =>
      dsimp only
      rw [ih]
      split
      · rfl
      · rw [List.flatMap_cons, applyCopies_append, ← ratpac_set_str_eq]
        rfl

/-! ### One command -/

theorem stackText_eq {size : Nat} {s : Text} (h : s.length < size) : stackText size s = some s :=
  if_pos h

theorem stackText_eq_some {size : Nat} {s t : Text} (h : stackText size s = some t) :
    s.length < size ∧ t = s := by
  unfold stackText at h
  split at h
  · rename_i hlt
    exact ⟨hlt, (Option.some.inj h).symm⟩
  · cases h

/-- `snprintf` leaves one character of the protocol. -/
theorem configText_prot (s : ConfigStore) : (configText s CFG_PROTNAME).length < 4 := by
  have hclip := clip_length_lt (k := 2) (by decide) (fieldText s.g_web_config .protname)
  have hcase : getCases.lookup CFG_PROTNAME = some (.protname, some 2) := rfl
  simp only [configText, ratpac_get_str, hcase, limited]
  split
  · decide
  · decide
  · rename_i heq
    rw [Option.some.inj heq] at hclip
    exact Nat.lt_trans hclip (by decide)

theorem configText_sacn {s : ConfigStore} (h : TextsTerminated s.g_web_config) :
    (configText s CFG_SACN_UNIV).length < 8 :=
  ratpac_get_str_lt (f := .sacn_universe) (G := ⟨s.g_web_config, 0⟩) rfl (by decide)
    (h .sacn_universe rfl)

theorem artnetParts_fit (arnet_num : Text) :
    (artnetParts arnet_num).1.length < 3 ∧ (artnetParts arnet_num).2.length < 3 := by
  have hall : ∀ n < 16, (decimal n).length < 3 := by decide
  exact ⟨hall _ (Nat.lt_of_le_of_lt Nat.and_le_right (by decide)),
    hall _ (Nat.lt_of_le_of_lt Nat.and_le_right (by decide))⟩

/-- The command stops, or copies the texts of its argument. -/
theorem withArgument_spec {s : ConfigStore} {h : Handler} {cmd : Text}
    {body : Text → Option Reply} (hfit : ∀ b ∈ (h.textsOf cmd).1, b.2.length < b.1)
    (hbody : ∀ tmp1, (∀ b ∈ (h.texts tmp1).1, b.2.length < b.1) →
      ∃ r, body tmp1 = some r ∧ Written s ((h.texts tmp1).2.flatMap setCopy) r.store) :
    ∃ r, withArgument cmd s body = some r ∧
      Written s ((h.textsOf cmd).2.flatMap setCopy) r.store := by
  unfold withArgument Handler.textsOf at *
  cases hcut : cut 0x3d cmd with
  | none => exact ⟨ok s, rfl, Written.refl s⟩
  | some p =>
    rw [hcut] at hfit
    exact hbody p.2 hfit

theorem setOption_spec {h : Handler} {size id : Nat}
    (htexts : ∀ tmp1, h.texts tmp1 = ([(size, tmp1)], [(id, tmp1)])) (s : ConfigStore) {cmd : Text}
    (hfit : ∀ b ∈ (h.textsOf cmd).1, b.2.length < b.1) :
    ∃ r, setOption size id cmd s = some r ∧
      Written s ((h.textsOf cmd).2.flatMap setCopy) r.store := by
  apply withArgument_spec hfit
  intro tmp1 hbuf
  rw [htexts] at hbuf ⊢
  simp only [stackText_eq (hbuf _ List.mem_cons_self)]
  exact ⟨_, rfl, saveAll_written s _⟩

/-- A command whose texts fit its buffers has an outcome and copies them. -/
theorem Handler.run_spec {s : ConfigStore} (hterm : TextsTerminated s.g_web_config) (h : Handler)
    {cmd : Text} (hfit : ∀ b ∈ (h.textsOf cmd).1, b.2.length < b.1) :
    ∃ r, h.run cmd s = some r ∧ Written s ((h.textsOf cmd).2.flatMap setCopy) r.store := by
  cases h with
  | SET_UNIVERSE =>
    apply withArgument_spec hfit
    intro tmp1 hbuf
    simp only [Handler.texts] at hbuf ⊢
    cases hcut : cut 0x2d tmp1 with
    | none => exact ⟨ok s, rfl, Written.refl s⟩
    | some p =>
      simp only [hcut, List.forall_mem_cons] at hbuf
      simp only [stackText_eq hbuf.1, stackText_eq hbuf.2.1]
      exact ⟨_, rfl, saveAll_written s _⟩
  | SET_PROTO_UNIVERSE =>
    apply withArgument_spec hfit
    intro tmp1 hbuf
    simp only [Handler.texts] at hbuf ⊢
    cases hparts : protoParts tmp1 with
    | none => exact ⟨ok s, rfl, Written.refl s⟩
    | some p =>
      simp only [hparts, List.forall_mem_cons] at hbuf
      simp only [stackText_eq (configText_prot s), stackText_eq (configText_sacn hterm),
        stackText_eq hbuf.1, stackText_eq hbuf.2.1, stackText_eq hbuf.2.2.1,
        stackText_eq hbuf.2.2.2.1]
      exact ⟨_, rfl, saveAll_written s _⟩
  | RENAME_AKS =>
    apply withArgument_spec hfit
    intro tmp1 hbuf
    simp only [stackText_eq (hbuf _ List.mem_cons_self)]
    exact ⟨_, rfl, saveAll_written s _⟩
  | SET_SORT => exact setOption_spec (fun _ => rfl) s hfit
  | SET_TIMO_POWER => exact setOption_spec (fun _ => rfl) s hfit
  | SET_LED_COLOR => exact setOption_spec (fun _ => rfl) s hfit
  | AUTO_SACN_UNIV =>
    apply withArgument_spec hfit
    intro tmp1 hbuf
    simp only [stackText_eq (hbuf _ List.mem_cons_self), stackText_eq (configText_prot _)]
    exact ⟨_, rfl, saveAll_written s _⟩
  | AUTO_ARTNET_UNIV =>
    apply withArgument_spec hfit
    intro tmp1 hbuf
    obtain ⟨huni, hsub⟩ := artnetParts_fit tmp1
    simp only [stackText_eq (hbuf _ List.mem_cons_self), Option.bind_eq_bind, Option.bind_some,
      stackText_eq (Nat.lt_trans huni (by decide : 3 < 4)),
      stackText_eq (Nat.lt_trans hsub (by decide : 3 < 4))]
    exact ⟨_, rfl, saveAll_written s _⟩

theorem readyToOut_store (P : Platform) (cmd : Text) (rc : Int) (reboot : Bool) (s : ConfigStore) :
    (readyToOut P cmd rc reboot s).store =
      if rc = CGI_RC_CFG_OK then write_data_to_flash s else s := by
  unfold readyToOut
  cases reboot <;> rfl

theorem readyToOut_written (P : Platform) (cmd : Text) (rc : Int) (reboot : Bool)
    (s : ConfigStore) : Written s [] (readyToOut P cmd rc reboot s).store := by
  rw [readyToOut_store]
  split
  · exact written_write rfl
  · exact Written.refl s

theorem Written.after {s s' : ConfigStore} {g : Mem} {ws ws' : List Copy}
    (hg : g = applyCopies s.g_web_config ws) (h : Written { s with g_web_config := g } ws' s') :
    Written s (ws ++ ws') s' := by
  intro x hx
  rw [h x hx, applyCopies_append, ← hg]

theorem CGI_do_cmd_spec {s : ConfigStore} (hterm : TextsTerminated s.g_web_config) (P : Platform)
    (req : Request) (hfit : ∀ w ∈ (Command.cgi P req).copies, w.2.length < w.1.size)
    (hbuf : ∀ b ∈ (Command.cgi P req).buffers, b.2.length < b.1) :
    ∃ r, CGI_do_cmd P req s = some r ∧ Written s (Command.cgi P req).copies r.store := by
  simp only [Command.copies, Command.buffers, Request.handler, Request.accepted] at hfit hbuf ⊢
  unfold CGI_do_cmd
  cases hcmd : req.CMD with
  | none => exact ⟨ok s, rfl, Written.refl s⟩
  | some cmd =>
    rw [hcmd] at hfit hbuf
    dsimp only
    by_cases hdirect : cmd ∈ direct
    · rw [if_pos hdirect, Option.filter_some, if_neg (by simp [hdirect])]
      exact ⟨_, rfl, readyToOut_written P cmd _ _ s⟩
    rw [if_neg hdirect]
    by_cases hrc : (P.ps_cgi_cmds cmd).getD 0 < 0
    · rw [if_pos hrc, Option.filter_some, if_neg (by simp [hrc])]
      exact ⟨_, rfl, Written.refl s⟩
    have haccepted : (some cmd).filter
        (fun cmd => decide (cmd ∉ direct ∧ 0 ≤ (P.ps_cgi_cmds cmd).getD 0)) = some cmd := by
      rw [Option.filter_some, if_pos (by simp [hdirect, Int.not_lt.mp hrc])]
    rw [if_neg hrc]
    simp only [haccepted, Option.toList_some, List.flatMap_cons, List.flatMap_nil, List.append_nil,
      Option.bind_some] at hfit hbuf ⊢
    have hloop := setLoop_copies P req.sets ⟨(P.ps_cgi_cmds cmd).getD 0, s.g_web_config, false⟩
    have hsets : TextsTerminated (setLoop P req.sets
        ⟨(P.ps_cgi_cmds cmd).getD 0, s.g_web_config, false⟩).g_web_config := by
      rw [hloop]
      exact (applyCopies_spec (fun w hw => hfit w (List.mem_append_left _ hw)) _).1 hterm
    by_cases hrefresh : cmd = ascii "CONSTELLATION_REFRESH"
    · rw [if_pos hrefresh, if_pos hrefresh]
      exact ⟨_, rfl, Written.after hloop (Written.refl _)⟩
    rw [if_neg hrefresh] at hfit hbuf ⊢
    rw [if_neg hrefresh]
    cases hhandler : handlerOf cmd with
    | none => exact ⟨_, rfl, Written.after hloop (readyToOut_written P cmd _ _ _)⟩
    | some h =>
      simp only [hhandler, Option.map_some, Option.toList_some, List.flatMap_cons,
        List.flatMap_nil, List.append_nil] at hfit hbuf ⊢
      obtain ⟨r, hrun, hwritten⟩ := h.run_spec (s := { s with g_web_config := _ }) hsets hbuf
      exact ⟨r, hrun, Written.after hloop hwritten⟩

theorem configText_lt {s : ConfigStore} {id : Nat} {f : Field} {limit : Option Nat}
    (hterm : TextsTerminated s.g_web_config) (hcase : getCases.lookup id = some (f, limit))
    (hf : f.isText = true) (hsize : 2 ≤ f.size ∧ f.size ≤ 20) : (configText s id).length < 100 := by
  have hlen := ratpac_get_str_lt (G := ⟨s.g_web_config, 0⟩) hcase hsize.1 (hterm f hf)
  exact Nat.lt_of_lt_of_le hlen (hsize.2.trans (by decide))

theorem cmd_web_para_spec {s : ConfigStore} {name : String} {f : Field}
    (hset : ∀ arg, setCopy (CFG_str2id name, arg) = [(f, arg)])
    (hshort : (configText s (CFG_str2id name)).length < 100) (lo hi : Int) (argv : List Text) :
    ∃ r, cmd_web_para name lo hi argv s = some r ∧
      Written s (rangeCopy lo hi argv f) r.store := by
  rcases argv with _ | ⟨arg, _ | ⟨_, _⟩⟩
  · simp only [cmd_web_para, stackText_eq hshort]
    exact ⟨_, rfl, Written.refl s⟩
  · have hsave := saveAll_written s [(CFG_str2id name, arg)]
    rw [List.flatMap_cons, List.flatMap_nil, List.append_nil, hset] at hsave
    simp only [cmd_web_para, rangeCopy, oneCopy]
    split
    · exact ⟨_, rfl, hsave⟩
    · exact ⟨_, rfl, Written.refl s⟩
  · exact ⟨_, rfl, Written.refl s⟩

theorem reload_cmd_web_para_spec (s : ConfigStore) (f : Field) (lo hi : Int) (argv : List Text) :
    ∃ r, reload_cmd_web_para f lo hi argv s = some r ∧
      Written s (rangeCopy lo hi argv f) r.store := by
  rcases argv with _ | ⟨arg, _ | ⟨_, _⟩⟩
  · exact ⟨_, rfl, Written.refl s⟩
  · simp only [reload_cmd_web_para, rangeCopy, oneCopy]
    split
    · exact ⟨_, rfl, written_write rfl⟩
    · exact ⟨_, rfl, Written.refl s⟩
  · exact ⟨_, rfl, Written.refl s⟩

theorem AtCommand.run_spec {s : ConfigStore} (hterm : TextsTerminated s.g_web_config)
    (build_img : Text) {c : AtCommand} (hc : c ≠ .DEFAULT) (argv : List Text) :
    ∃ r, c.run build_img argv s = some r ∧ Written s (c.copies argv) r.store := by
  cases c with
  | NODENAME =>
    rcases argv with _ | ⟨arg, _ | ⟨_, _⟩⟩
    · have hshort : (configText s (CFG_str2id "AKS_NAME")).length < 100 :=
        configText_lt (f := .name) hterm rfl rfl (by decide)
      simp only [AtCommand.run, cmd_web_para_node_name, stackText_eq hshort]
      exact ⟨_, rfl, Written.refl s⟩
    · exact ⟨_, rfl, saveAll_written s [(CFG_str2id "AKS_NAME", arg)]⟩
    · exact ⟨_, rfl, Written.refl s⟩
  | UNIVERSE =>
    exact cmd_web_para_spec (fun _ => rfl)
      (configText_lt (f := .universe) hterm rfl rfl (by decide)) 0 9 argv
  | TIMOPOWER =>
    exact cmd_web_para_spec (fun _ => rfl)
      (configText_lt (f := .timopower) hterm rfl rfl (by decide)) 0 5 argv
  | CHANNELWIDTH =>
    exact cmd_web_para_spec (fun _ => rfl)
      (configText_lt (f := .channelWidth) hterm rfl rfl (by decide)) 9 18 argv
  | SECONDCHANNEL =>
    exact cmd_web_para_spec (fun _ => rfl)
      (configText_lt (f := .secondChannel) hterm rfl rfl (by decide)) 0 11 argv
  | BITSETTING =>
    rcases argv with _ | ⟨arg, _ | ⟨_, _⟩⟩
    · exact ⟨_, rfl, Written.refl s⟩
    · simp only [AtCommand.run, cmd_web_para_bitsetting, cmd_web_para]
      split
      · exact ⟨_, rfl, saveAll_written s [(CFG_str2id "AKS_BIT_SETTINGS", arg)]⟩
      · exact ⟨_, rfl, Written.refl s⟩
    · exact ⟨_, rfl, Written.refl s⟩
  | DEFAULT => exact absurd rfl hc
  | WNODENAME =>
    rcases argv with _ | ⟨arg, _ | ⟨_, _⟩⟩
    · exact ⟨_, rfl, Written.refl s⟩
    · exact ⟨_, rfl, written_write rfl⟩
    · exact ⟨_, rfl, Written.refl s⟩
  | WUNIVERSE => exact reload_cmd_web_para_spec s .universe 0 9 argv
  | WTIMOPOWER => exact reload_cmd_web_para_spec s .timopower 0 5 argv
  | WCHANNELWIDTH => exact reload_cmd_web_para_spec s .channelWidth 9 18 argv
  | WSECONDCHANNEL => exact reload_cmd_web_para_spec s .secondChannel 0 11 argv
  | WBITSETTING => exact reload_cmd_web_para_spec s .bitSetting 0 1 argv

/-! ### The record over sequences of commands -/

/-- Every text is terminated inside its array, and the magic number is in place. -/
structure WellFormed (g : Mem) : Prop where
  texts : TextsTerminated g
  magic : HasMagic g

/-- No member outside the list, but for the checksum, changes. -/
def OnlyNamed (named : List Field) (g g' : Mem) : Prop :=
  ∀ f, f ∉ named → f ≠ .initFlag → load g' f.offset f.size = load g f.offset f.size

theorem Field.offset_pos {f : Field} (h : f ≠ .initFlag) : 1 ≤ f.offset := by
  cases f <;> first | contradiction | decide

theorem wellFormed_congr {g g' : Mem} (h : ∀ x, 1 ≤ x → x < WEB_DATA_SIZE → g' x = g x)
    (hg : WellFormed g) : WellFormed g' := by
  refine ⟨fun f hf => ?_, ?_⟩
  · have hpos := Field.offset_pos (f := f) (by rintro rfl; cases hf)
    have hend := f.end_le
    exact (terminated_congr fun i hi => h _ (by omega) (by omega)).mpr (hg.texts f hf)
  · exact ⟨(h 99 (by decide) (by decide)).trans hg.magic.1,
      (h 100 (by decide) (by decide)).trans hg.magic.2⟩

/-- Copies that fit and go to members named by the command keep the record well formed. -/
theorem Written.wellFormed {s s' : ConfigStore} {ws : List Copy} {named : List Field}
    (h : Written s ws s') (hs : WellFormed s.g_web_config)
    (hws : ∀ w ∈ ws, w.1.isText = true ∧ w.1 ∈ named ∧ w.2.length < w.1.size) :
    WellFormed s'.g_web_config ∧ OnlyNamed named s.g_web_config s'.g_web_config := by
  obtain ⟨hterm, hframe⟩ := applyCopies_spec (fun w hw => (hws w hw).2.2) s.g_web_config
  have hmagic : ∀ i < 2, applyCopies s.g_web_config ws (99 + i) = s.g_web_config (99 + i) := by
    apply hframe .magic
    intro w hw heq
    have htext := (hws w hw).1
    rw [heq] at htext
    cases htext
  refine ⟨wellFormed_congr (fun x hx _ => h x hx) ⟨hterm hs.texts, ?_⟩, fun f hf hne => ?_⟩
  · exact ⟨(hmagic 0 (by decide)).trans hs.magic.1, (hmagic 1 (by decide)).trans hs.magic.2⟩
  · apply load_congr
    intro i hi
    have hpos := Field.offset_pos hne
    rw [h _ (by omega)]
    exact hframe f (fun w hw heq => hf (heq ▸ (hws w hw).2.1)) i hi

theorem factory_wellFormed (build_img : Text) : WellFormed (factoryRecord build_img zeroed) := by
  unfold factoryRecord imageTexts
  split
  · exact ⟨by decide +kernel, by decide +kernel⟩
  · exact ⟨by decide +kernel, by decide +kernel⟩

/-- `AT+DEFAULT` puts the factory settings in place. -/
theorem default_record (build_img : Text) (s : ConfigStore) {x : Nat} (hx : 1 ≤ x)
    (hlt : x < WEB_DATA_SIZE) :
    (web_flash_data_init build_img 1 s).g_web_config x = factoryRecord build_img zeroed x := by
  have hflag : ∀ g : Mem, store g Field.initFlag.offset [1] 0 ≠ 0x55 := by
    intro g
    rw [store_eq, dif_pos (by decide)]
    decide
  simp only [web_flash_data_init, if_true]
  rw [if_pos (Or.inl (hflag _)), write_keeps _ hx]
  exact factoryRecord_eq build_img _ hlt

theorem default_wellFormed (build_img : Text) (s : ConfigStore) :
    WellFormed (web_flash_data_init build_img 1 s).g_web_config :=
  wellFormed_congr (fun _ hx hlt => default_record build_img s hx hlt)
    (factory_wellFormed build_img)

/-! ### The members that the copies reach -/

theorem setCopy_field {w : Nat × Text} {c : Copy} (h : c ∈ setCopy w) : c.1 ∈ setFields w.1 := by
  unfold setCopy at h
  unfold setFields
  split at h
  · rename_i hcase
    obtain rfl := List.mem_singleton.mp h
    simp [hcase]
  · cases h

theorem loopSets_field {cmdvs : List Text} {w : Nat × Text} (h : w ∈ loopSets cmdvs) :
    ∃ cmdv ∈ cmdvs, ∃ a, setArg cmdv = some a ∧ a.1 = w.1 := by
  induction cmdvs with
  | nil => cases h
  | cons cmdv cmdvs ih =>
    have hlater : w ∈ loopSets cmdvs → ∃ cmdv' ∈ cmdv :: cmdvs, ∃ a,
        setArg cmdv' = some a ∧ a.1 = w.1 := by
      intro hw
      obtain ⟨cmdv', hmem, hrest⟩ := ih hw
      exact ⟨cmdv', List.mem_cons_of_mem cmdv hmem, hrest⟩
    unfold loopSets at h
    cases harg : setArg cmdv with
    | none =>
      rw [harg] at h
      cases h
    | some a =>
      simp only [harg] at h
      split at h
      · exact hlater h
      · rcases List.mem_cons.mp h with rfl | h
        · exact ⟨cmdv, List.mem_cons_self, a, harg, rfl⟩
        · exact hlater h

theorem Handler.texts_field (h : Handler) (tmp1 : Text) :
    ∀ w ∈ (h.texts tmp1).2, setFields w.1 ⊆ h.fields := by
  cases h with
  | SET_UNIVERSE =>
    simp only [Handler.texts]
    split
    · exact fun _ hw => by cases hw
    · simp only [List.forall_mem_cons]
      exact ⟨by decide, by decide, by simp⟩
  | SET_PROTO_UNIVERSE =>
    simp only [Handler.texts]
    split
    · exact fun _ hw => by cases hw
    · simp only [List.forall_mem_cons]
      exact ⟨by decide, by decide, by decide, by decide, by simp⟩
  | AUTO_ARTNET_UNIV =>
    simp only [Handler.texts, List.forall_mem_cons]
    exact ⟨by decide, by decide, by simp⟩
  | RENAME_AKS | SET_SORT | SET_TIMO_POWER | SET_LED_COLOR | AUTO_SACN_UNIV =>
    simp only [Handler.texts, List.forall_mem_cons]
    exact ⟨by decide, by simp⟩

theorem AtCommand.copies_field (c : AtCommand) (argv : List Text) :
    ∀ w ∈ c.copies argv, w.1.isText = true ∧ w.1 ∈ c.fields := by
  have hrange : ∀ (lo hi : Int) (f : Field), ∀ w ∈ rangeCopy lo hi argv f, w.1 = f := by
    intro lo hi f w hw
    unfold rangeCopy oneCopy at hw
    split at hw
    · dsimp only at hw
      split at hw
      · obtain rfl := List.mem_singleton.mp hw
        rfl
      · cases hw
    · cases hw
  have hone : ∀ s : Text → Text, ∀ w ∈ oneCopy argv fun arg => [(Field.name, s arg)],
      w.1 = .name := by
    intro s w hw
    unfold oneCopy at hw
    split at hw
    · obtain rfl := List.mem_singleton.mp hw
      rfl
    · cases hw
  intro w hw
  cases c with
  | BITSETTING | DEFAULT => cases hw
  | NODENAME | WNODENAME =>
    rw [hone _ w hw]
    decide
  | UNIVERSE | TIMOPOWER | CHANNELWIDTH | SECONDCHANNEL | WUNIVERSE | WTIMOPOWER
  | WCHANNELWIDTH | WSECONDCHANNEL | WBITSETTING =>
    rw [hrange _ _ _ w hw]
    decide

/-- Every copy of a command under its own name goes to a text that it names. -/
theorem Command.copies_field {c : Command} (hname : c.OwnName) :
    ∀ w ∈ c.copies, w.1.isText = true ∧ w.1 ∈ c.named := by
  cases c with
  | atcmd c argv => exact c.copies_field argv
  | cgi P req =>
    intro w hw
    rcases List.mem_append.mp hw with hw | hw
    · obtain ⟨_, -, hw⟩ := List.mem_flatMap.mp hw
      obtain ⟨set, hset, hw⟩ := List.mem_flatMap.mp hw
      obtain ⟨cmdv, hcmdv, a, harg, hid⟩ := loopSets_field hset
      refine ⟨setCopy_isText hw, List.mem_append_left _ (List.mem_flatMap.mpr ⟨cmdv, hcmdv, ?_⟩)⟩
      have hfield := setCopy_field hw
      rw [← hid] at hfield
      simpa [harg] using hfield
    · obtain ⟨⟨h, cmd⟩, hhandler, hw⟩ := List.mem_flatMap.mp hw
      obtain ⟨set, hset, hw⟩ := List.mem_flatMap.mp hw
      have hsome := Option.mem_toList.mp hhandler
      refine ⟨setCopy_isText hw, List.mem_append_right _ ?_⟩
      have hcmd : req.CMD = some cmd := by
        obtain ⟨cmd', hacc, hmap⟩ := Option.bind_eq_some_iff.mp hsome
        split at hmap
        · cases hmap
        · obtain ⟨_, -, heq⟩ := Option.map_eq_some_iff.mp hmap
          obtain ⟨-, rfl⟩ := Prod.mk.inj heq
          exact (Option.filter_eq_some_iff.mp hacc).1
      have hown := hname (h, cmd) hsome (List.ne_nil_of_mem hset)
      refine List.mem_flatMap.mpr ⟨cmd, by simp [hcmd], List.mem_flatMap.mpr ⟨h, ?_, ?_⟩⟩
      · exact List.mem_filter.mpr ⟨by cases h <;> decide, hown⟩
      · unfold Handler.textsOf at hset
        split at hset
        · cases hset
        · exact h.texts_field _ set hset (setCopy_field hw)

/-- A command that fits has an outcome, keeps the record well formed and changes only the
members that it names. -/
theorem step_spec (build_img : Text) {s : ConfigStore} (hs : WellFormed s.g_web_config)
    {c : Command} (hfit : c.Fits) :
    ∃ s', step build_img s c = some s' ∧ WellFormed s'.g_web_config ∧
      OnlyNamed c.named s.g_web_config s'.g_web_config := by
  have hws : ∀ w ∈ c.copies, w.1.isText = true ∧ w.1 ∈ c.named ∧ w.2.length < w.1.size := by
    intro w hw
    obtain ⟨htext, hnamed⟩ := Command.copies_field hfit.name w hw
    exact ⟨htext, hnamed, hfit.copies w hw⟩
  cases c with
  | cgi P req =>
    obtain ⟨r, hrun, hwritten⟩ := CGI_do_cmd_spec hs.texts P req hfit.copies hfit.buffers
    exact ⟨r.store, by rw [step, hrun]; rfl, hwritten.wellFormed hs hws⟩
  | atcmd c argv =>
    by_cases hc : c = .DEFAULT
    · subst hc
      have hall : ∀ g' : Mem, OnlyNamed (Command.atcmd .DEFAULT argv).named s.g_web_config g' :=
        fun _ f hf => absurd f.mem_all hf
      rcases argv with _ | ⟨arg, _ | ⟨_, _⟩⟩
      · exact ⟨s, rfl, hs, hall _⟩
      · exact ⟨_, rfl, default_wellFormed build_img s, hall _⟩
      · exact ⟨s, rfl, hs, hall _⟩
    · obtain ⟨r, hrun, hwritten⟩ := AtCommand.run_spec hs.texts build_img hc argv
      exact ⟨r.store, by rw [step, hrun]; rfl, hwritten.wellFormed hs hws⟩

theorem run_spec (build_img : Text) {s : ConfigStore} (hs : WellFormed s.g_web_config)
    {cmds : List Command} (hfit : ∀ c ∈ cmds, c.Fits) :
    ∃ s', Runs.exec (step build_img) s cmds = some s' ∧ WellFormed s'.g_web_config := by
  induction cmds generalizing s with
  | nil => exact ⟨s, rfl, hs⟩
  | cons c cmds ih =>
    obtain ⟨s₁, hstep, hs₁, -⟩ := step_spec build_img hs (hfit c List.mem_cons_self)
    obtain ⟨s', hrun, hs'⟩ := ih hs₁ fun c' hc' => hfit c' (List.mem_cons_of_mem c hc')
    exact ⟨s', Runs.exec_cons_eq_some.mpr ⟨s₁, hstep, hrun⟩, hs'⟩

/-- **The record over any sequence of commands that fit.**  Every state that such a
sequence reaches is well formed, and every command in it has an outcome that changes only
the members it names. -/
theorem commands_keep_record (build_img : Text) {s : ConfigStore}
    (hs : WellFormed s.g_web_config) {cmds : List Command} (hfit : ∀ c ∈ cmds, c.Fits) :
    (∃ s', Runs.exec (step build_img) s cmds = some s' ∧ WellFormed s'.g_web_config) ∧
      ∀ before c after, cmds = before ++ c :: after →
        ∃ s₁ s₂, Runs.exec (step build_img) s before = some s₁ ∧ step build_img s₁ c = some s₂ ∧
          WellFormed s₁.g_web_config ∧ WellFormed s₂.g_web_config ∧
            OnlyNamed c.named s₁.g_web_config s₂.g_web_config := by
  refine ⟨run_spec build_img hs hfit, fun before c after hsplit => ?_⟩
  subst hsplit
  obtain ⟨s₁, hrun, hs₁⟩ :=
    run_spec build_img hs fun c' hc' => hfit c' (List.mem_append_left _ hc')
  obtain ⟨s₂, hstep, hs₂, honly⟩ :=
    step_spec build_img hs₁ (hfit c (List.mem_append_right _ List.mem_cons_self))
  exact ⟨s₁, s₂, hrun, hstep, hs₁, hs₂, honly⟩

def factoryStore : ConfigStore := ⟨factoryRecord (ascii "AKS") zeroed, zeroed⟩

/-- A platform whose other commands and options do nothing. -/
def quietPlatform : Platform := ⟨fun _ => none, fun _ => none, fun _ _ => -1⟩

/-- The name is set by its id, and then the universes and the protocol. -/
def sampleRequest : Request where
  CMD := some (ascii "SET_PROTO_UNIVERSE=1-2-7-0")
  SET := fun i => if i = 0 then some (ascii "302055936=Stage left") else none

def sampleCommands : List Command :=
  [.cgi quietPlatform sampleRequest, .atcmd .WUNIVERSE [ascii "5"]]

theorem sampleCommands_fit : ∀ c ∈ sampleCommands, c.Fits := by
  simp only [sampleCommands, List.forall_mem_cons]
  refine ⟨⟨by decide +kernel, by decide +kernel, ?_⟩, ⟨by decide +kernel, by decide, trivial⟩,
    by simp⟩
  unfold Command.OwnName
  decide +kernel

theorem commands_keep_record_sample :
    ∃ s', Runs.exec (step (ascii "AKS")) factoryStore sampleCommands = some s' ∧
      WellFormed s'.g_web_config :=
  (commands_keep_record (ascii "AKS") (factory_wellFormed (ascii "AKS")) sampleCommands_fit).1

/-- `AT+WUNIVERSE=0001` passes the range check and runs from `universe` into `subnet`. -/
theorem leading_zeros_overrun :
    WellFormed factoryStore.g_web_config ∧
      ∃ s', step (ascii "AKS") factoryStore (.atcmd .WUNIVERSE [ascii "0001"]) = some s' ∧
        ¬ TextsTerminated s'.g_web_config ∧
          ¬ OnlyNamed (Command.atcmd .WUNIVERSE [ascii "0001"]).named factoryStore.g_web_config
            s'.g_web_config := by
  refine ⟨factory_wellFormed (ascii "AKS"), _, rfl, by decide +kernel, fun honly => ?_⟩
  have hsubnet := honly .subnet (by decide) (by decide)
  revert hsubnet
  decide +kernel

end AksFirmware.ConfigCommands
