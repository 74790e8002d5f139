/-! # Built-in programs

* `builtInTexts` are the texts of the programs that come with the library.
-/

set_option autoImplicit false

namespace HierarchicalTuring

/-- Runs over the first number, turns the plus sign into a one, runs over the second number, and
takes the last one away. -/
def unaryAdditionText : String :=
  "\x7b\n" ++
  "  \"name\": \"Unary addition\",\n" ++
  "  \"description\": \"Adds two unary numbers separated by '+', e.g. 11+111 becomes 11111.\",\n" ++
  "  \"machine\": \"main\",\n" ++
  "  \"input\": \"11+111\",\n" ++
  "  \"machines\": \x7b\n" ++
  "    \"main\": \x7b\n" ++
  "      \"states\": \x7b\n" ++
  "        \"start\": \x7b\n" ++
  "          \"transitions\": [\n" ++
  "            \x7b \"destination\": \"start\", \"inchar\": \"1\", \"outchar\": null, \"move\": \"R\" \x7d,\n" ++
  "            \x7b \"destination\": \"seek\", \"inchar\": \"+\", \"outchar\": \"1\", \"move\": \"R\" \x7d\n" ++
  "          ],\n" ++
  "          \"accepting\": false,\n" ++
  "          \"submachine\": null,\n" ++
  "          \"x\": 0.0,\n" ++
  "          \"y\": 0.0\n" ++
  "        \x7d,\n" ++
  "        \"seek\": \x7b\n" ++
  "          \"transitions\": [\n" ++
  "            \x7b \"destination\": \"seek\", \"inchar\": \"1\", \"outchar\": null, \"move\": \"R\" \x7d,\n" ++
  "            \x7b \"destination\": \"erase\", \"inchar\": \"␣\", \"outchar\": null, \"move\": \"L\" \x7d\n" ++
  "          ],\n" ++
  "          \"accepting\": false,\n" ++
  "          \"submachine\": null,\n" ++
  "          \"x\": 120.0,\n" ++
  "          \"y\": 0.0\n" ++
  "        \x7d,\n" ++
  "        \"erase\": \x7b\n" ++
  "          \"transitions\": [\n" ++
  "            \x7b \"destination\": \"done\", \"inchar\": \"1\", \"outchar\": \"␣\", \"move\": \"S\" \x7d\n" ++
  "          ],\n" ++
  "          \"accepting\": false,\n" ++
  "          \"submachine\": null,\n" ++
  "          \"x\": 240.0,\n" ++
  "          \"y\": 0.0\n" ++
  "        \x7d,\n" ++
  "        \"done\": \x7b\n" ++
  "          \"transitions\": [],\n" ++
  "          \"accepting\": true,\n" ++
  "          \"submachine\": null,\n" ++
  "          \"x\": 360.0,\n" ++
  "          \"y\": 0.0\n" ++
  "        \x7d\n" ++
  "      \x7d,\n" ++
  "      \"submachines\": null\n" ++
  "    \x7d\n" ++
  "  \x7d\n" ++
  "\x7d\n"

/-- Keeps in its state whether the ones read so far are even in number. -/
def evenOnesText : String :=
  "\x7b\n" ++
  "  \"name\": \"Even ones\",\n" ++
  "  \"description\": \"Accepts binary strings containing an even number of 1s.\",\n" ++
  "  \"machine\": \"main\",\n" ++
  "  \"input\": \"1001\",\n" ++
  "  \"machines\": \x7b\n" ++
  "    \"main\": \x7b\n" ++
  "      \"states\": \x7b\n" ++
  "        \"start\": \x7b\n" ++
  "          \"transitions\": [\n" ++
  "            \x7b \"destination\": \"start\", \"inchar\": \"0\", \"outchar\": null, \"move\": \"R\" \x7d,\n" ++
  "            \x7b \"destination\": \"odd\", \"inchar\": \"1\", \"outchar\": null, \"move\": \"R\" \x7d,\n" ++
  "            \x7b \"destination\": \"done\", \"inchar\": \"␣\", \"outchar\": null, \"move\": \"S\" \x7d\n" ++
  "          ],\n" ++
  "          \"accepting\": false,\n" ++
  "          \"submachine\": null,\n" ++
  "          \"x\": 0.0,\n" ++
  "          \"y\": 0.0\n" ++
  "        \x7d,\n" ++
  "        \"odd\": \x7b\n" ++
  "          \"transitions\": [\n" ++
  "            \x7b \"destination\": \"odd\", \"inchar\": \"0\", \"outchar\": null, \"move\": \"R\" \x7d,\n" ++
  "            \x7b \"destination\": \"start\", \"inchar\": \"1\", \"outchar\": null, \"move\": \"R\" \x7d\n" ++
  "          ],\n" ++
  "          \"accepting\": false,\n" ++
  "          \"submachine\": null,\n" ++
  "          \"x\": 120.0,\n" ++
  "          \"y\": 0.0\n" ++
  "        \x7d,\n" ++
  "        \"done\": \x7b\n" ++
  "          \"transitions\": [],\n" ++
  "          \"accepting\": true,\n" ++
  "          \"submachine\": null,\n" ++
  "          \"x\": 0.0,\n" ++
  "          \"y\": 120.0\n" ++
  "        \x7d\n" ++
  "      \x7d,\n" ++
  "      \"submachines\": null\n" ++
  "    \x7d\n" ++
  "  \x7d\n" ++
  "\x7d\n"

/-- Calls a machine that returns to the cell where it was called. -/
def submachineCallText : String :=
  "\x7b\n" ++
  "  \"name\": \"Submachine call\",\n" ++
  "  \"description\": \"The main machine calls 'rewrite', which uppercases the x and y after the leading a, then returns.\",\n" ++
  "  \"machine\": \"main\",\n" ++
  "  \"input\": \"axy\",\n" ++
  "  \"machines\": \x7b\n" ++
  "    \"main\": \x7b\n" ++
  "      \"states\": \x7b\n" ++
  "        \"start\": \x7b\n" ++
  "          \"transitions\": [\n" ++
  "            \x7b \"destination\": \"call\", \"inchar\": \"a\", \"outchar\": null, \"move\": \"R\" \x7d\n" ++
  "          ],\n" ++
  "          \"accepting\": false,\n" ++
  "          \"submachine\": null,\n" ++
  "          \"x\": 0.0,\n" ++
  "          \"y\": 0.0\n" ++
  "        \x7d,\n" ++
  "        \"call\": \x7b\n" ++
  "          \"transitions\": [\n" ++
  "            \x7b \"destination\": \"done\", \"inchar\": \"a\", \"outchar\": null, \"move\": \"S\" \x7d\n" ++
  "          ],\n" ++
  "          \"accepting\": false,\n" ++
  "          \"submachine\": \"rewrite\",\n" ++
  "          \"x\": 120.0,\n" ++
  "          \"y\": 0.0\n" ++
  "        \x7d,\n" ++
  "        \"done\": \x7b\n" ++
  "          \"transitions\": [],\n" ++
  "          \"accepting\": true,\n" ++
  "          \"submachine\": null,\n" ++
  "          \"x\": 240.0,\n" ++
  "          \"y\": 0.0\n" ++
  "        \x7d\n" ++
  "      \x7d,\n" ++
  "      \"submachines\": null\n" ++
  "    \x7d,\n" ++
  "    \"rewrite\": \x7b\n" ++
  "      \"states\": \x7b\n" ++
  "        \"start\": \x7b\n" ++
  "          \"transitions\": [\n" ++
  "            \x7b \"destination\": \"upper-x\", \"inchar\": \"x\", \"outchar\": \"X\", \"move\": \"R\" \x7d\n" ++
  "          ],\n" ++
  "          \"accepting\": false,\n" ++
  "          \"submachine\": null,\n" ++
  "          \"x\": 0.0,\n" ++
  "          \"y\": 0.0\n" ++
  "        \x7d,\n" ++
  "        \"upper-x\": \x7b\n" ++
  "          \"transitions\": [\n" ++
  "            \x7b \"destination\": \"upper-y\", \"inchar\": \"y\", \"outchar\": \"Y\", \"move\": \"L\" \x7d\n" ++
  "          ],\n" ++
  "          \"accepting\": false,\n" ++
  "          \"submachine\": null,\n" ++
  "          \"x\": 120.0,\n" ++
  "          \"y\": 0.0\n" ++
  "        \x7d,\n" ++
  "        \"upper-y\": \x7b\n" ++
  "          \"transitions\": [\n" ++
  "            \x7b \"destination\": \"back\", \"inchar\": \"X\", \"outchar\": null, \"move\": \"L\" \x7d\n" ++
  "          ],\n" ++
  "          \"accepting\": false,\n" ++
  "          \"submachine\": null,\n" ++
  "          \"x\": 240.0,\n" ++
  "          \"y\": 0.0\n" ++
  "        \x7d,\n" ++
  "        \"back\": \x7b\n" ++
  "          \"transitions\": [],\n" ++
  "          \"accepting\": true,\n" ++
  "          \"submachine\": null,\n" ++
  "          \"x\": 360.0,\n" ++
  "          \"y\": 0.0\n" ++
  "        \x7d\n" ++
  "      \x7d,\n" ++
  "      \"submachines\": null\n" ++
  "    \x7d\n" ++
  "  \x7d\n" ++
  "\x7d\n"

/-- The texts of the built-in programs, in the order in which they are listed. -/
def builtInTexts : List String :=
  [unaryAdditionText, evenOnesText, submachineCallText]

end HierarchicalTuring
