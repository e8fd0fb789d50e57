import Pinout.Board.Definition
import Pinout.Diagnostic
import Pinout.Output.Protocol
import Pinout.Text.Numeral

/-! The timing of each output family, from the settings of a board. -/

set_option autoImplicit false

namespace Pinout.Resolution

open Board (Definition)

/-- The timing of every family. -/
structure Timings where
  motor : Timing
  servo : Timing
  ledStrip : Timing
deriving DecidableEq

def Timings.of (timings : Timings) : Family → Timing
  | .motor => timings.motor
  | .servo => timings.servo
  | .ledStrip => timings.ledStrip

/-- The protocols in use where the settings do not name one. -/
structure Options where
  motorProtocol : Protocol := .oneshot125
  servoProtocol : Protocol := .pwm
deriving DecidableEq

/-- Where the timing of a family comes from: two settings and a default. -/
structure RateSource where
  family : Family
  protocolKey : String
  rateKey : String
  fallback : Protocol

def motorSource (options : Options) : RateSource :=
  ⟨.motor, "motor_pwm_protocol", "motor_pwm_rate", options.motorProtocol⟩

def servoSource (options : Options) : RateSource :=
  ⟨.servo, "servo_pwm_protocol", "servo_pwm_rate", options.servoProtocol⟩

namespace RateSource

/-- The protocol that the settings name, or the default. -/
def protocol (source : RateSource) (board : Definition) : Protocol :=
  ((board.setting? source.protocolKey).bind Protocol.ofName?).getD source.fallback

def readRate? (value : String) : Option Nat :=
  (Text.numeral? 4294967295 (Text.trim value.toList)).filter (· > 0)

/-- The timing that the settings give. A rate counts only for protocols that honor
one. -/
def timing (source : RateSource) (board : Definition) : Timing :=
  let nominal := (source.protocol board).nominal
  match (board.setting? source.rateKey).bind readRate? with
  | some rate =>
    if (source.protocol board).isAnalog then { nominal with frequency := rate } else nominal
  | none => nominal

def protocolIssue? (source : RateSource) (board : Definition) : Option Diagnostic :=
  match board.settingEntry? source.protocolKey with
  | none => none
  | some setting =>
    match Protocol.ofName? setting.value with
    | some _ => none
    | none => some {
        severity := .warning
        finding := .unknownProtocol
        message :=
          s!"{setting.key} = {setting.value} is not a known protocol; using " ++
            s!"{source.fallback} for {source.family.keyword} outputs"
        line := some setting.line }

def rateIssue? (source : RateSource) (board : Definition) : Option Diagnostic :=
  match board.settingEntry? source.rateKey with
  | none => none
  | some setting =>
    match readRate? setting.value with
    | some _ => none
    | none => some {
        severity := .warning
        finding := .syntaxIssue
        message :=
          s!"{setting.key} = {setting.value} is not a positive rate in Hz; using " ++
            s!"{(source.protocol board).nominalFrequency} Hz"
        line := some setting.line }

def issues (source : RateSource) (board : Definition) : List Diagnostic :=
  (source.protocolIssue? board).toList ++ (source.rateIssue? board).toList

end RateSource

/-- The timings of a board. Light strips have one protocol only. -/
def timingsOf (board : Definition) (options : Options) : Timings where
  motor := (motorSource options).timing board
  servo := (servoSource options).timing board
  ledStrip := Protocol.ws2812.nominal

end Pinout.Resolution
