import ProbeStuffing.Ap.Stuffing
import ProbeStuffing.Lib.Trace

/-!
# Probe requests at the access point

The state of a BSS that matters here is one pointer, `probe_resp_ack_ie`.
`handle_probe_req` sets it when a request carries stuffed data and then goes on
like for any other request, through a dozen checks that end in a plain `return`.
`hostapd_gen_probe_resp` appends the element to the response it builds and
clears the pointer.  It also builds the template for drivers that answer probe
requests themselves, when the beacon is built.

`Env` is all that the two functions read besides the frame and the pointer: the
configuration, the tables of stations, the clock, the heap, and what other
functions return.  It is part of each input, so it may change between any two
calls.  Writing an eleventh stuffing element is undefined, and then there is no
next state.
-/

namespace ProbeStuffing.Ap

open CString Tlv Trace

/-! ## Frames -/

/-- `is_multicast_ether_addr`. -/
def Mac.isMulticast (a : Mac) : Bool := a.a0 &&& 1 != 0

/-- `is_broadcast_ether_addr`. -/
def Mac.isBroadcast (a : Mac) : Bool :=
  a.a0 &&& a.a1 &&& a.a2 &&& a.a3 &&& a.a4 &&& a.a5 == 0xff

/-- What is read of `struct ieee80211_mgmt`: the addresses and the elements. -/
structure Mgmt where
  da : Mac
  sa : Mac
  bssid : Mac
  ie : Bytes
deriving DecidableEq

/-- A frame of at least `IEEE80211_HDRLEN` bytes. -/
def Mgmt.ofBytes : Bytes → Option Mgmt
  | _ :: _ :: _ :: _ :: d0 :: d1 :: d2 :: d3 :: d4 :: d5 :: s0 :: s1 :: s2 :: s3 :: s4 :: s5 ::
      b0 :: b1 :: b2 :: b3 :: b4 :: b5 :: _ :: _ :: ie =>
      some
        { da := ⟨d0, d1, d2, d3, d4, d5⟩
          sa := ⟨s0, s1, s2, s3, s4, s5⟩
          bssid := ⟨b0, b1, b2, b3, b4, b5⟩
          ie := ie }
  | _ => none

/-! ## What the code reads -/

/-- `enum hostapd_hw_mode`. -/
inductive HwMode where
  | ieee80211b
  | ieee80211g
  | ieee80211a
  | ieee80211ad
  | ieee80211any
deriving DecidableEq

structure Env where
  /-- A probe request callback returns a positive value. -/
  probereqCb : Bool := false
  sendProbeResponse : Bool := true
  /-- The clock of `gettimeofday`. -/
  tvSec : Nat := 0
  tvUsec : Nat := 0
  /-- The heap behind `additional_data`. -/
  heap : Bytes := []
  /-- What `system` returns. -/
  systemStatus : Int := 0
  currentMode : Option HwMode := none
  channel : UInt8 := 1
  configP2p : Bool := false
  /-- `hapd->p2p && hapd->p2p_group`. -/
  p2pGroup : Bool := false
  p2pGroupMatchDevType : Bool := true
  p2pGroupMatchDevId : Bool := true
  /-- `hapd->conf->p2p & P2P_GROUP_OWNER`. -/
  p2pGroupOwner : Bool := false
  ignoreBroadcastSsid : Bool := false
  ssid : Bytes := [97, 112]
  configInterworking : Bool := false
  interworking : Bool := false
  accessNetworkType : UInt8 := 0
  hessid : Bytes := [0, 0, 0, 0, 0, 0]
  noProbeRespIfSeenOn : Bool := false
  staTrackSeenOn : Bool := false
  noProbeRespIfMaxSta : Bool := false
  numSta : Int := 0
  maxNumSta : Int := 2007
  /-- `ap_get_sta(hapd, mgmt->sa) != NULL`. -/
  apGetSta : Bool := false
  configTestingOptions : Bool := false
  /-- `drand48()` is below `ignore_probe_probability`, and that is positive. -/
  ignoreProbe : Bool := false
  /-- `os_zalloc` of the response succeeds. -/
  respAlloc : Bool := true
  ownAddr : Mac := ⟨2, 0, 0, 0, 0, 1⟩
  beaconInt : UInt16 := 100
  ownCapabInfo : UInt16 := 1
  /-- The elements of the response before the ACK; the argument is `is_p2p`. -/
  ownElems : Bool → List Element := fun _ => []
  /-- The allocations at the top of `ieee802_11_build_ap_params` succeed. -/
  beaconAlloc : Bool := true
  /-- `drv_flags & WPA_DRIVER_FLAGS_PROBE_RESP_OFFLOAD`. -/
  probeRespOffload : Bool := false

/-! ## SSID matching -/

inductive SsidMatchResult where
  | noSsidMatch
  | exactSsidMatch
  | wildcardSsidMatch
deriving DecidableEq

/-- The loop of `ssid_match` over an SSID list. -/
def ssidListMatch (conf : Bytes) : Nat → Bytes → Bool → SsidMatchResult
  | fuel + 1, _ :: len :: rest, wildcard =>
      if rest.length < len.toNat then
        if wildcard then .wildcardSsidMatch else .noSsidMatch
      else if rest.take len.toNat = conf then .exactSsidMatch
      else ssidListMatch conf fuel (rest.drop len.toNat) (wildcard || len == 0)
  | _, _, wildcard => if wildcard then .wildcardSsidMatch else .noSsidMatch

/-- `ssid_match`. -/
def ssidMatch (conf ssid : Bytes) (ssidList : Option Bytes) : SsidMatchResult :=
  let wildcard := ssid.isEmpty
  if ssid = conf then .exactSsidMatch
  else
    match ssidList with
    | none => if wildcard then .wildcardSsidMatch else .noSsidMatch
    | some list => ssidListMatch conf list.length list wildcard

/-- `is_11b`. -/
def is11b (rate : UInt8) : Bool := rate == 0x02 || rate == 0x04 || rate == 0x0b || rate == 0x16

/-- `supp_rates_11b_only`. -/
def suppRates11bOnly (elems : Elems) : Bool :=
  let rates := elems.suppRates.getD [] ++ elems.extSuppRates.getD []
  rates.any is11b && rates.all is11b

/-! ## Whether a request is answered -/

/-- The returns of `handle_probe_req` between the stuffing block and the
response, in order.  `none` is a return, else it is the result of `ssid_match`. -/
def replyChecks (env : Env) (mgmt : Mgmt) (elems : Elems) : Option SsidMatchResult :=
  match elems.ssid, elems.suppRates with
  | some ssid, some _ =>
      if elems.dsParams.any (fun ds => ds.head? != some env.channel) &&
          (env.currentMode == some .ieee80211g || env.currentMode == some .ieee80211b) then none
      else if env.configP2p && env.p2pGroup && elems.wpsIe.isSome && !env.p2pGroupMatchDevType then
        none
      else if env.configP2p && env.p2pGroup && elems.p2p.isSome && !env.p2pGroupMatchDevId then none
      else if env.ignoreBroadcastSsid && ssid.isEmpty && (elems.ssidList.getD []).isEmpty then none
      else
        -- `P2P_WILDCARD_SSID` counts as the wildcard SSID
        let ssid :=
          if env.configP2p && env.p2pGroupOwner && ssid == ascii "DIRECT-" then [] else ssid
        let res := ssidMatch env.ssid ssid elems.ssidList
        if res = .noSsidMatch then none
        else if env.configInterworking && interworkingMismatch then none
        else if env.configP2p && env.p2pGroupOwner && suppRates11bOnly elems then none
        else if env.noProbeRespIfSeenOn && mgmt.da.isMulticast && mgmt.bssid.isMulticast &&
            env.staTrackSeenOn then none
        else if env.noProbeRespIfMaxSta && mgmt.da.isMulticast && mgmt.bssid.isMulticast &&
            decide (env.maxNumSta ≤ env.numSta) && !env.apGetSta then none
        else if env.configTestingOptions && env.ignoreProbe then none
        else some res
  | _, _ => none
where
  /-- The checks of the access network type and of the HESSID. -/
  interworkingMismatch : Bool :=
    env.interworking &&
      match elems.interworking with
      | none => false
      | some body =>
          let ant := body.head?.map (· &&& 0x0f)
          let hessid := if body.length = 7 then body.drop 1 else body.drop 3
          ant.any (fun a => a != 15 && a != env.accessNetworkType) ||
            (body.length == 7 || body.length == 9) && hessid.any (· != 0xff) && hessid != env.hessid

/-! ## Responses -/

/-- A frame of `hostapd_gen_probe_resp`. -/
structure ProbeResp where
  da : Mac
  sa : Mac
  bssid : Mac
  beaconInt : UInt16
  capabInfo : UInt16
  /-- The elements of the BSS itself. -/
  ownElems : List Element
  /-- The ACK element behind them. -/
  ackIe : Option Bytes
deriving DecidableEq

/-- `u.probe_resp.variable`. -/
def ProbeResp.variable (resp : ProbeResp) : Bytes := encode resp.ownElems ++ resp.ackIe.getD []

/-- `hapd->conf`, as far as it changes. -/
structure BssConf where
  probeRespAckIe : Option Bytes := none
deriving DecidableEq

/-- `hostapd_gen_probe_resp`; `none` is `NULL`. -/
def hostapdGenProbeResp (env : Env) (req : Option Mgmt) (isP2p : Bool) (conf : BssConf) :
    BssConf × Option ProbeResp :=
  if env.respAlloc then
    ({ conf with probeRespAckIe := none },
      some
        { da := (req.map Mgmt.sa).getD ⟨0, 0, 0, 0, 0, 0⟩
          sa := env.ownAddr
          bssid := env.ownAddr
          beaconInt := env.beaconInt
          capabInfo := env.ownCapabInfo
          ownElems := env.ownElems isP2p
          ackIe := conf.probeRespAckIe })
  else (conf, none)

/-! ## The handlers -/

inductive Event where
  /-- A stuffed request of this station has been decoded and its ACK installed. -/
  | stuffed (sa : Mac) (x : Received)
  /-- `system` has run the command and returned this status. -/
  | systemCall (command : Bytes) (status : Int)
  /-- `hostapd_gen_probe_resp` has built a frame, for a request or as a template. -/
  | probeResp (req : Option Mgmt) (resp : ProbeResp)
  /-- `hostapd_drv_send_mlme_csa`. -/
  | sendMlme (resp : ProbeResp) (noack : Bool)

/-- The stuffing block of `handle_probe_req`. -/
def handleStuffing (env : Env) (sa : Mac) (elems : Elems) (conf : BssConf) :
    BssConf × List Event :=
  match extract sa (elems.stuffedData.take elems.nStuffedIes.toNat) env.heap with
  | none => (conf, [])
  | some x =>
      ({ conf with probeRespAckIe := some x.ieAck },
        [.stuffed sa x,
          .systemCall (command (x.csv (apTimestampStr env.tvSec env.tvUsec))) env.systemStatus])

/-- `handle_probe_req` from the stuffing block on. -/
def handleReply (env : Env) (mgmt : Mgmt) (elems : Elems) (conf : BssConf) :
    BssConf × List Event :=
  match replyChecks env mgmt elems with
  | none => (conf, [])
  | some res =>
      match hostapdGenProbeResp env (some mgmt) elems.p2p.isSome conf with
      | (conf', none) => (conf', [])
      | (conf', some resp) =>
          (conf', [.probeResp (some mgmt) resp,
            .sendMlme resp (res == .wildcardSsidMatch && mgmt.da.isBroadcast)])

/-- `handle_probe_req`; `none` is undefined behaviour. -/
def handleProbeReq (env : Env) (frame : Bytes) (conf : BssConf) : Option (BssConf × List Event) :=
  match Mgmt.ofBytes frame with
  | none => some (conf, [])
  | some mgmt =>
      if env.probereqCb then some (conf, [])
      else if !env.sendProbeResponse then some (conf, [])
      else
        let r := ieee80211ParseElems mgmt.ie
        if r.2.overrun then none
        else if r.1 = .parseFailed then some (conf, [])
        else
          let stuffing := handleStuffing env mgmt.sa r.2 conf
          let reply := handleReply env mgmt r.2 stuffing.1
          some (reply.1, stuffing.2 ++ reply.2)

/-- `ieee802_11_build_ap_params`, with `hostapd_probe_resp_offloads`. -/
def ieee80211BuildApParams (env : Env) (conf : BssConf) : BssConf × List Event :=
  if !env.beaconAlloc then (conf, [])
  else if !env.probeRespOffload then (conf, [])
  else
    match hostapdGenProbeResp env none false conf with
    | (conf', none) => (conf', [])
    | (conf', some resp) => (conf', [.probeResp none resp])

inductive Input where
  | probeReq (env : Env) (frame : Bytes)
  | buildApParams (env : Env)

/-- The life of one BSS. -/
def bss : Machine BssConf Input Event where
  step conf
    | .probeReq env frame => handleProbeReq env frame conf
    | .buildApParams env => some (ieee80211BuildApParams env conf)

/-! ## Requests by station -/

/-- A broadcast probe request of station 02:00:00:00:00:`sta`. -/
def broadcastProbe (sta : UInt8) (ie : Bytes) : Bytes :=
  [0x40, 0, 0, 0] ++ List.replicate 6 0xff ++ [2, 0, 0, 0, 0, sta] ++ List.replicate 6 0xff ++
    [0, 0] ++ ie

/-- The SSID and the rates every answered request has. -/
def ssidAndRates : Bytes := [0, 2, 97, 112, 1, 1, 130]

/-- A stuffing element with the header `7`. -/
def headerSeven : Bytes := [221, 4, 1, 2, 3, 55]

end ProbeStuffing.Ap
