import Reddish.Pack.Walks
import Reddish.Memory.Runs
import Reddish.Wal.Bursts
import Reddish.Wal.Atomicity
import Reddish.Database.Arithmetic
import Reddish.Database.Failures
import Reddish.Database.Restart
import Reddish.Database.Deques
import Reddish.Database.FieldMaps
import Reddish.Resp.Pipelines
import Reddish.Client.Reader
import Reddish.Server.Loop
import Reddish.Server.Capacity
import Reddish.Server.Acknowledged
