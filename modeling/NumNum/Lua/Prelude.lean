/-!
# The prelude of generated programs

The lines that every generated program begins with: the three tables and places it works
on, and the functions that check the stack and access the channels and the variables.
-/

namespace NumNum.Lua

/-- The lines of the prelude. -/
def preludeLines : List String :=
  ["local stack = \x7b\x7d",
   "local variables = \x7b\x7d",
   "local temporary = nil",
   "",
   "local function need(depth, operator)",
   "  if #stack < depth then",
   "    error(\"stack underflow: \" .. operator .. \" needs \" .. depth .. \" value(s), found \" .. #stack)",
   "  end",
   "end",
   "",
   "local function top(operator)",
   "  need(1, operator)",
   "  return stack[#stack]",
   "end",
   "",
   "local function write_char(code)",
   "  if code > 0x10ffff or (code >= 0xd800 and code <= 0xdfff) then",
   "    error(\"invalid character code \" .. code)",
   "  end",
   "  io.write(utf8.char(code))",
   "end",
   "",
   "local function read_char()",
   "  local c = io.read(1)",
   "  if c == nil then",
   "    return 0xffffffff",
   "  end",
   "  local b = string.byte(c)",
   "  local n = 0",
   "  if b >= 0xf0 then n = 3 elseif b >= 0xe0 then n = 2 elseif b >= 0xc0 then n = 1 end",
   "  if n > 0 then",
   "    c = c .. (io.read(n) or \"\")",
   "  end",
   "  return utf8.codepoint(c)",
   "end",
   "",
   "local function read_integer()",
   "  local line = io.read(\"l\")",
   "  if line == nil or not string.match(line, \"^%s*%d+%s*$\") or tonumber(line) > 0xffffffff then",
   "    error(\"invalid numeric input: \" .. tostring(line))",
   "  end",
   "  return math.tointeger(tonumber(line))",
   "end",
   "",
   "local function load_variable(address)",
   "  local value = variables[address]",
   "  if value == nil then",
   "    error(\"variable \" .. address .. \" is not defined\")",
   "  end",
   "  return value",
   "end",
   ""]

/-- The text of the prelude. -/
def prelude : String :=
  String.join (preludeLines.map (· ++ "\n"))

end NumNum.Lua
