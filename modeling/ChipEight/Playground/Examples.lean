/-!
# Example programs

The listings that a playground offers, by name. The last name stands for a listing of one's own, which starts empty.
-/

namespace ChipEight.Playground

/-- Draws the sixteen digits side by side, and then idles. -/
def fontDigits : List String := [
  "6000    # V0 = digit",
  "6100    # V1 = x",
  "6201    # V2 = y",
  "F029    # I = glyph(V0)",
  "D125    # draw 4x5 glyph",
  "7001    # next digit",
  "7104    # next column",
  "3010    # done after F",
  "1206",
  "1212    # idle"]

/-- Waits for a key and draws its digit, over and over. -/
def keyEcho : List String := [
  "00E0    # clear",
  "F00A    # V0 = next key",
  "00E0",
  "F029    # I = glyph(V0)",
  "611C",
  "620D",
  "D125    # draw the key centred",
  "1202    # wait again"]

/-- Toggles cells at random, over and over. -/
def randomDots : List String := [
  "A20A    # I = dot sprite",
  "C03F    # V0 = random x",
  "C11F    # V1 = random y",
  "D011    # toggle one pixel",
  "1202",
  "80      # sprite: single pixel"]

/-- The listings by name, in the order in which they are offered. -/
def examples : List (String × String) :=
  [("Font Digits", fontDigits), ("Key Echo", keyEcho), ("Random Dots", randomDots), ("Custom", [])].map
    fun (name, lines) => (name, "\n".intercalate lines)

/-- The listing of a given name; empty for a name that is not offered. -/
def exampleNamed (name : String) : String :=
  (examples.lookup name).getD ""

end ChipEight.Playground
