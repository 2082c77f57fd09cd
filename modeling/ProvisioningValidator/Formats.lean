import Mathlib
import ProvisioningValidator.Lib.Text
import ProvisioningValidator.Lib.Regex

/-!
# The formats of values

The regular expressions that the rules match texts with. Each is matched against the whole of a
text, most of them through `c_str()`.
-/

namespace ProvisioningValidator

open Lib Regex

/-- `boost::regex_match(s.c_str(), .., re)` -/
def matchesCStr (re : Regex) (s : String) : Bool := re.isMatch (cstr s)

/-- `^\d+(\.\d+)? (bps|Kbps|Mbps|Gbps|Tbps)$` -/
def bitRateRegexp : Regex :=
  seq (plus digit) (seq (opt (seq (char '.') (plus digit)))
    (seq (char ' ') (oneOf [lit "bps", lit "Kbps", lit "Mbps", lit "Gbps", lit "Tbps"])))

/-- `[A-Fa-f0-9]` -/
def hexDigit : Regex := oneOf [range 'A' 'F', range 'a' 'f', range '0' '9']

/-- `^[A-Fa-f0-9]{6}$` -/
def sdRegexp : Regex := times 6 hexDigit

/-- `[0-9]|[1-9][0-9]|1[0-9][0-9]|2[0-4][0-9]|25[0-5]` -/
def ipv4Number : Regex :=
  oneOf [range '0' '9', seq (range '1' '9') (range '0' '9'),
    seq (char '1') (seq (range '0' '9') (range '0' '9')),
    seq (char '2') (seq (range '0' '4') (range '0' '9')),
    seq (lit "25") (range '0' '5')]

/-- `^((number)\.){3}(number)$` -/
def ipv4Regexp : Regex := seq (times 3 (seq ipv4Number (char '.'))) ipv4Number

/-- `0?|([1-9a-f][0-9a-f]{0,3})` -/
def ipv6Group : Regex :=
  alt (opt (char '0')) (seq (alt (range '1' '9') (range 'a' 'f'))
    (upTo 3 (alt (range '0' '9') (range 'a' 'f'))))

/-- `^((:|(group)):)((group):){0,6}(:|(group))$` -/
def ipv6Regexp1 : Regex :=
  seq (seq (alt (char ':') ipv6Group) (char ':'))
    (seq (upTo 6 (seq ipv6Group (char ':'))) (alt (char ':') ipv6Group))

/-- `[^:]+` -/
def noColons : Regex := plus (cls (· != ':'))

/-- `^((([^:]+:){7}([^:]+))|((([^:]+:)*[^:]+)?::(([^:]+:)*[^:]+)?))$` -/
def ipv6Regexp2 : Regex :=
  let list := seq (star (seq noColons (char ':'))) noColons
  alt (seq (times 7 (seq noColons (char ':'))) noColons) (seq (opt list) (seq (lit "::") (opt list)))

/-- `([0-9])|([0-9]{2})|(1[0-1][0-9])|(12[0-8])` -/
def ipv6PrefixLength : Regex :=
  oneOf [range '0' '9', times 2 (range '0' '9'),
    seq (char '1') (seq (range '0' '1') (range '0' '9')), seq (lit "12") (range '0' '8')]

/-- `IPV6_REGEXP_1` with `(\/(length))` behind it. -/
def ipv6PrefixRegexp1 : Regex := seq ipv6Regexp1 (seq (char '/') ipv6PrefixLength)

/-- `IPV6_REGEXP_2` with `(\/.+)` behind it. -/
def ipv6PrefixRegexp2 : Regex := seq ipv6Regexp2 (seq (char '/') (plus any))

/-- `^\d{5,6}$|Default` -/
def plmnidSetIdentifierRegexp : Regex :=
  alt (seq (times 5 digit) (opt digit)) (lit "Default")

/-- `(^[A-Fa-f0-9]{4}$)` -/
def threegppChargingCharacteristicsRegex : Regex := times 4 hexDigit

/-- `(^[A-Fa-f0-9]{4}$)|(^[A-Fa-f0-9]{6}$)` -/
def tacsRegexp : Regex := alt (times 4 hexDigit) (times 6 hexDigit)

/-- `^[0-9a-fA-F]{8}\-[0-9a-fA-F]{4}\-[0-9a-fA-F]{4}\-[0-9a-fA-F]{4}\-[0-9a-fA-F]{12}$` -/
def uuidRegex : Regex :=
  seq (times 8 hexDigit) (seq (char '-') (seq (times 4 hexDigit) (seq (char '-')
    (seq (times 4 hexDigit) (seq (char '-') (seq (times 4 hexDigit) (seq (char '-')
      (times 12 hexDigit))))))))

def isTac (tac : String) : Bool := matchesCStr tacsRegexp tac

example : matchesCStr bitRateRegexp "1.5 Gbps" = true := by decide +kernel

end ProvisioningValidator
