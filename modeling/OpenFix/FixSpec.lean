import Mathlib.Tactic.Common

/-!
# `fix_spec.h`

The members of `fix_spec::tag` that the modelled code names.
-/

namespace OpenFix.FixSpec

def BeginString : Int := 8
def BodyLength : Int := 9
def CheckSum : Int := 10
def SecurityIDSource : Int := 22
def MsgSeqNum : Int := 34
def MsgType : Int := 35
def SecurityID : Int := 48
def SenderCompID : Int := 49
def SendingTime : Int := 52
def TargetCompID : Int := 56
def EncryptMethod : Int := 98
def HeartBtInt : Int := 108
def ResetSeqNumFlag : Int := 141
def NoRelatedSym : Int := 146
def MDReqID : Int := 262
def SubscriptionRequestType : Int := 263
def MarketDepth : Int := 264
def NoMDEntryTypes : Int := 267
def MDEntryType : Int := 269
def Username : Int := 553
def Password : Int := 554

end OpenFix.FixSpec
